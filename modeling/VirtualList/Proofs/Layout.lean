import Mathlib.Algebra.Ring.Nat
import Mathlib.Logic.ExistsUnique
import VirtualList.SegmentList

namespace VirtualList

namespace BackToBack

variable {segments : List (Segment α)} {start stop : Nat}

theorem head_first (row : BackToBack start segments stop) {segment : Segment α}
    (atHead : segments.head? = some segment) : segment.first = start := by
  cases segments with
  | nil => cases atHead
  | cons head rest =>
    cases atHead
    exact row.1

theorem last_stop (row : BackToBack start segments stop) {segment : Segment α}
    (atEnd : segments.getLast? = some segment) : segment.stop = stop := by
  obtain ⟨before, rfl⟩ := List.getLast?_eq_some_iff.mp atEnd
  obtain ⟨middle, _, _, _, ended⟩ := append_iff.mp row
  exact ended

theorem adjoining (row : BackToBack start segments stop) {n : Nat} {former latter : Segment α}
    (atFormer : segments[n]? = some former) (atLatter : segments[n + 1]? = some latter) :
    former.stop = latter.first := by
  induction segments generalizing start n with
  | nil => cases atFormer
  | cons segment rest ih =>
    obtain ⟨_, _, tail⟩ := row
    rw [List.getElem?_cons_succ] at atLatter
    cases n with
    | zero =>
      cases atFormer
      exact (tail.head_first (List.head?_eq_getElem? ▸ atLatter)).symm
    | succ n => exact ih tail (by simpa using atFormer) atLatter

theorem stop_eq_sum (row : BackToBack start segments stop) :
    stop = start + (segments.map Segment.size).sum := by
  induction segments generalizing start with
  | nil => exact (nil_iff.mp row).symm
  | cons segment rest ih =>
    obtain ⟨first, _, tail⟩ := row
    have counted := ih tail
    simp only [Segment.stop, first] at counted
    rw [List.map_cons, List.sum_cons, counted, Nat.add_assoc]

end BackToBack

namespace SegmentList

def pieces (list : SegmentList α) : List (Nat × α) :=
  list.toList.map fun segment => (segment.size, segment.value)

-- How runs lie in a list.
structure Laid (pieces : List (Nat × α)) (list : SegmentList α) : Prop where
  inOrder : list.pieces = pieces
  length : list.length = pieces.length
  size : list.size = (pieces.map Prod.fst).sum
  positive : ∀ segment ∈ list.toList, 0 < segment.size
  nothing : list.toList = [] → list.size = 0
  start : ∀ segment, list.toList.head? = some segment → segment.first = 0
  adjoining : ∀ n former latter, list.toList[n]? = some former →
    list.toList[n + 1]? = some latter → former.stop = latter.first
  stop : ∀ segment, list.toList.getLast? = some segment → segment.stop = list.size
  partition : ∀ index < list.size,
    ∃! n : Nat, ∃ segment, list.toList[n]? = some segment ∧ segment.contains index = true
  beyond : ∀ index, list.size ≤ index → ∀ segment ∈ list.toList, segment.contains index = false

theorem laid (list : SegmentList α) : Laid list.pieces list := by
  have row := list.backToBack
  refine ⟨rfl, ?_, ?_, ?_, ?_, ?_, ?_, ?_, ?_, ?_⟩
  · simp [pieces, length, toList]
  · have sizes : list.pieces.map Prod.fst = list.toList.map Segment.size := by
      simp [pieces, Function.comp_def]
    rw [sizes, row.stop_eq_sum, Nat.zero_add]
  · intro segment member
    exact (row.bounds member).2.1
  · intro nothing
    rw [nothing] at row
    exact row.symm
  · intro segment atHead
    exact row.head_first atHead
  · intro n former latter atFormer atLatter
    exact row.adjoining atFormer atLatter
  · intro segment atEnd
    exact row.last_stop atEnd
  · intro index bound
    obtain ⟨n, segment, atPlace, holds⟩ := row.exists_containing (Nat.zero_le index) bound
    refine ⟨n, ⟨segment, atPlace, holds⟩, ?_⟩
    intro m again
    obtain ⟨other, atOther, alsoHolds⟩ := again
    rw [← place_eq atPlace holds, place_eq atOther alsoHolds]
  · intro index beyond segment member
    have bounds := row.bounds member
    apply eq_false_of_ne_true
    intro holds
    have inside := Segment.contains_iff.mp holds
    omega

end SegmentList
end VirtualList
