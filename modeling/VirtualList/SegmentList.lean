import VirtualList.Bisect
import VirtualList.Fault
import VirtualList.Segment

namespace VirtualList

structure SegmentList (α : Type u) where
  segments : Array (Segment α)
  size : Nat
  row : BackToBack 0 segments.toList size
  fits : size ≤ maxIndex

namespace SegmentList

def empty : SegmentList α := ⟨#[], 0, rfl, by decide⟩

instance : Inhabited (SegmentList α) := ⟨empty⟩

def toList (list : SegmentList α) : List (Segment α) := list.segments.toList

def length (list : SegmentList α) : Nat := list.segments.size

def isEmpty (list : SegmentList α) : Bool := list.segments.isEmpty

theorem ext_toList {left right : SegmentList α} (same : left.toList = right.toList)
    (sameSize : left.size = right.size) : left = right := by
  cases left; cases right
  simp only [toList, Array.toList_inj] at same
  subst same sameSize
  rfl

theorem backToBack (list : SegmentList α) : BackToBack 0 list.toList list.size := list.row

-- Adds `count` items after the last one. A run of no items is refused before its place in the list
-- is looked at, so it is reported even where the list is full.
def append (list : SegmentList α) (count : Nat) (value : α) : Except Fault (SegmentList α) :=
  if positive : 0 < count then
    if fits : list.size + count ≤ maxIndex then
      .ok {
        segments := list.segments.push ⟨list.size, count, value⟩
        size := list.size + count
        row := by
          rw [Array.toList_push]
          exact BackToBack.append_iff.mpr ⟨list.size, list.row, rfl, positive, rfl⟩
        fits }
    else .error .tooManyItems
  else .error .emptySegment

theorem append_eq_ok_iff {list grown : SegmentList α} {count : Nat} {value : α} :
    list.append count value = .ok grown ↔
      0 < count ∧ grown.size = list.size + count ∧
        grown.toList = list.toList ++ [⟨list.size, count, value⟩] := by
  unfold append
  split
  · rename_i positive
    split
    · rename_i fits
      simp only [Except.ok.injEq, positive, true_and]
      refine ⟨fun same => by subst same; simp [toList], fun ⟨sameSize, same⟩ => ?_⟩
      exact ext_toList (by rw [same]; simp [toList]) sameSize.symm
    · have := grown.fits
      simp only [reduceCtorEq, false_iff]
      omega
  · simp_all

theorem exists_append {list : SegmentList α} {count : Nat} (positive : 0 < count)
    (fits : list.size + count ≤ maxIndex) (value : α) :
    ∃ grown, list.append count value = .ok grown := by
  rw [append, dif_pos positive, dif_pos fits]
  exact ⟨_, rfl⟩

theorem append_eq_emptySegment_iff {list : SegmentList α} {count : Nat} {value : α} :
    list.append count value = .error .emptySegment ↔ count = 0 := by
  unfold append
  split
  · rename_i positive
    split <;> simp [Nat.ne_of_gt positive]
  · rename_i none
    simp [Nat.eq_zero_of_not_pos none]

theorem append_eq_tooManyItems_iff {list : SegmentList α} {count : Nat} {value : α} :
    list.append count value = .error .tooManyItems ↔ 0 < count ∧ maxIndex < list.size + count := by
  unfold append
  split
  · rename_i positive
    split
    · rename_i fits
      simp [Nat.not_lt.mpr fits]
    · rename_i full
      simp [positive, Nat.lt_of_not_le full]
  · rename_i none
    simp [none]

def place (list : SegmentList α) (index : Nat) : Nat :=
  bisect (fun n => list.segments[n]?.all (index < ·.stop)) 0 list.segments.size

def find? (list : SegmentList α) (index : Nat) : Option (Segment α) :=
  if index < list.size then list.segments[list.place index]? else none

def segmentAt (list : SegmentList α) (index : Nat) : Except Fault (Segment α) :=
  match list.find? index with
  | some segment => .ok segment
  | none => .error (.outOfBounds index list.size)

def startingBy (list : SegmentList α) (last n : Nat) : List (Segment α) :=
  if bound : n < list.segments.size then
    let segment := list.segments[n]
    if segment.first ≤ last then segment :: list.startingBy last (n + 1) else []
  else []
termination_by list.segments.size - n

-- The segments that hold an item between `first` and `last`, both included.
def overlapping (list : SegmentList α) (first last : Nat) : List (Segment α) :=
  list.startingBy last (list.place first)

def requireIndex (list : SegmentList α) (index : Nat) : Except Fault Unit :=
  if index < list.size then .ok () else .error (.outOfBounds index list.size)

-- The bounds of `first` are tested before those of `last`, and their order after both.
def visit (list : SegmentList α) (first last : Nat) : Except Fault (List (Segment α)) := do
  list.requireIndex first
  list.requireIndex last
  if last < first then throw (.invertedBounds first last)
  return list.overlapping first last

theorem place_eq {list : SegmentList α} {index n : Nat} {segment : Segment α}
    (atPlace : list.toList[n]? = some segment) (holds : segment.contains index = true) :
    list.place index = n := by
  have ⟨after, before⟩ := Segment.contains_iff.mp holds
  have inside : n < list.segments.size := by
    have := (List.getElem?_eq_some_iff.mp atPlace).1
    simpa [toList] using this
  refine bisect_eq (Nat.zero_le n) (Nat.le_of_lt inside) (fun m _ early => ?_)
    fun m late bound => ?_
  · have bound : m < list.segments.size := by omega
    have there : list.toList[m]? = some list.segments[m] := by simp [toList, bound]
    have order := list.backToBack.stop_lt_stop early there atPlace
    simp only [Array.getElem?_eq_getElem bound, Option.all_some, decide_eq_false_iff_not]
    omega
  · simp only [Array.getElem?_eq_getElem bound, Option.all_some, decide_eq_true_eq]
    rcases Nat.eq_or_lt_of_le late with rfl | later
    · have same : list.segments[n] = segment := by simpa [toList, bound] using atPlace
      exact same ▸ before
    · have there : list.toList[m]? = some list.segments[m] := by simp [toList, bound]
      have order := list.backToBack.stop_lt_stop later atPlace there
      omega

theorem exists_atPlace {list : SegmentList α} {index : Nat} (bound : index < list.size) :
    ∃ segment, list.toList[list.place index]? = some segment ∧ segment.contains index = true := by
  obtain ⟨n, segment, atPlace, holds⟩ := list.backToBack.exists_containing (Nat.zero_le index) bound
  exact ⟨segment, (place_eq atPlace holds).symm ▸ atPlace, holds⟩

theorem place_lt {list : SegmentList α} {index : Nat} (bound : index < list.size) :
    list.place index < list.segments.size := by
  obtain ⟨segment, atPlace, _⟩ := exists_atPlace bound
  exact (List.getElem?_eq_some_iff.mp atPlace).1

theorem find?_eq_some_iff {list : SegmentList α} {index : Nat} {segment : Segment α} :
    list.find? index = some segment ↔ segment ∈ list.toList ∧ segment.contains index = true := by
  have lookup (n : Nat) : list.segments[n]? = list.toList[n]? := by simp [toList]
  have inside (member : segment ∈ list.toList) (holds : segment.contains index = true) :
      index < list.size := by
    have := list.backToBack.bounds member
    have := Segment.contains_iff.mp holds
    omega
  constructor
  · intro found
    unfold find? at found
    split at found
    · rename_i bound
      obtain ⟨held, atPlace, holds⟩ := exists_atPlace bound
      rw [lookup, atPlace, Option.some.injEq] at found
      exact found ▸ ⟨List.mem_of_getElem? atPlace, holds⟩
    · cases found
  · rintro ⟨member, holds⟩
    obtain ⟨n, atPlace⟩ := List.mem_iff_getElem?.mp member
    rw [find?, if_pos (inside member holds), place_eq atPlace holds, lookup, atPlace]

theorem contains_of_find? {list : SegmentList α} {index : Nat} {segment : Segment α}
    (found : list.find? index = some segment) : segment.contains index = true :=
  (find?_eq_some_iff.mp found).2

theorem segmentAt_of_find? {list : SegmentList α} {index : Nat} {segment : Segment α}
    (found : list.find? index = some segment) : list.segmentAt index = .ok segment := by
  simp only [segmentAt, found]

theorem find?_eq_none_iff {list : SegmentList α} {index : Nat} :
    list.find? index = none ↔ list.size ≤ index := by
  constructor
  · intro missing
    refine Nat.le_of_not_lt fun bound => ?_
    obtain ⟨held, atPlace, holds⟩ := exists_atPlace bound
    have found := find?_eq_some_iff.mpr ⟨List.mem_of_getElem? atPlace, holds⟩
    simp [missing] at found
  · intro beyond
    rw [find?, if_neg (Nat.not_lt.mpr beyond)]

theorem find?_of_append {list grown : SegmentList α} {count : Nat} {value : α}
    (accepted : list.append count value = .ok grown) (index : Nat) :
    grown.find? index =
      if index < list.size then list.find? index
      else if index < grown.size then some ⟨list.size, count, value⟩ else none := by
  obtain ⟨positive, size, segments⟩ := append_eq_ok_iff.mp accepted
  split
  · rename_i old
    cases found : list.find? index with
    | none =>
      have := find?_eq_none_iff.mp found
      omega
    | some segment =>
      obtain ⟨member, holds⟩ := find?_eq_some_iff.mp found
      refine find?_eq_some_iff.mpr ⟨?_, holds⟩
      rw [segments]
      exact List.mem_append_left _ member
  · rename_i new
    split
    · rename_i inside
      refine find?_eq_some_iff.mpr ⟨?_, Segment.contains_iff.mpr ⟨Nat.le_of_not_lt new, ?_⟩⟩
      · rw [segments]
        exact List.mem_append_right _ List.mem_cons_self
      · rw [size] at inside
        exact inside
    · rename_i outside
      exact find?_eq_none_iff.mpr (Nat.le_of_not_lt outside)

theorem startingBy_eq (list : SegmentList α) (last n : Nat) :
    list.startingBy last n = (list.toList.drop n).takeWhile (·.first ≤ last) := by
  fun_induction startingBy list last n with
  | case1 n bound segment early ih =>
    rw [toList, List.drop_eq_getElem_cons (by simpa using bound), List.takeWhile_cons_of_pos]
    · rw [ih]; rfl
    · simpa using early
  | case2 n bound segment late =>
    rw [toList, List.drop_eq_getElem_cons (by simpa using bound), List.takeWhile_cons_of_neg]
    simpa using late
  | case3 n bound => rw [toList, List.drop_of_length_le (by simpa using bound), List.takeWhile_nil]

theorem requireIndex_of_lt {list : SegmentList α} {index : Nat} (bound : index < list.size) :
    list.requireIndex index = .ok () := if_pos bound

theorem requireIndex_of_size_le {list : SegmentList α} {index : Nat} (beyond : list.size ≤ index) :
    list.requireIndex index = .error (.outOfBounds index list.size) :=
  if_neg (Nat.not_lt_of_le beyond)

theorem visit_eq_ok {list : SegmentList α} {first last : Nat} (order : first ≤ last)
    (bound : last < list.size) : list.visit first last = .ok (list.overlapping first last) := by
  simp [visit, requireIndex_of_lt (Nat.lt_of_le_of_lt order bound), requireIndex_of_lt bound,
    Nat.not_lt.mpr order, bind, Except.bind, pure, Except.pure]

end SegmentList
end VirtualList
