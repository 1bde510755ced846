import VirtualList.IndexRange

namespace VirtualList

structure Segment (α : Type u) where
  first : Nat
  size : Nat
  value : α
  deriving DecidableEq, Repr

namespace Segment

def stop (segment : Segment α) : Nat := segment.first + segment.size

def range (segment : Segment α) : IndexRange := ⟨segment.first, segment.stop⟩

def contains (segment : Segment α) (index : Nat) : Bool := index ∈ segment.range

theorem contains_iff {segment : Segment α} {index : Nat} :
    segment.contains index = true ↔ segment.first ≤ index ∧ index < segment.stop := by
  simp [contains, range, IndexRange.mem_iff]

-- The items of the run among those from `first` to `last`, both included.
def clip (segment : Segment α) (first last : Nat) : IndexRange :=
  ⟨max first segment.first, min (last + 1) segment.stop⟩

theorem mem_clip {segment : Segment α} {first last index : Nat} :
    index ∈ segment.clip first last ↔
      segment.contains index = true ∧ first ≤ index ∧ index ≤ last := by
  simp only [clip, IndexRange.mem_iff, contains_iff]; omega

end Segment

-- Runs of at least one item each that follow one another from `start` to `stop` without a gap.
def BackToBack (start : Nat) : List (Segment α) → Nat → Prop
  | [], stop => start = stop
  | segment :: rest, stop =>
    segment.first = start ∧ 0 < segment.size ∧ BackToBack segment.stop rest stop

namespace BackToBack

theorem nil_iff {start stop : Nat} : BackToBack start ([] : List (Segment α)) stop ↔ start = stop :=
  .rfl

theorem cons_iff {segment : Segment α} {rest : List (Segment α)} {start stop : Nat} :
    BackToBack start (segment :: rest) stop ↔
      segment.first = start ∧ 0 < segment.size ∧ BackToBack segment.stop rest stop := .rfl

theorem append_iff {left right : List (Segment α)} {start stop : Nat} :
    BackToBack start (left ++ right) stop ↔
      ∃ middle, BackToBack start left middle ∧ BackToBack middle right stop := by
  induction left generalizing start with
  | nil => simp [nil_iff]
  | cons segment rest ih => simp [cons_iff, ih, and_assoc]

theorem start_le {segments : List (Segment α)} {start stop : Nat}
    (row : BackToBack start segments stop) : start ≤ stop := by
  induction segments generalizing start with
  | nil => exact Nat.le_of_eq row
  | cons segment rest ih =>
    obtain ⟨first, positive, tail⟩ := row
    have := ih tail
    simp only [Segment.stop] at this
    omega

theorem bounds {segments : List (Segment α)} {start stop : Nat}
    (row : BackToBack start segments stop) {segment : Segment α} (member : segment ∈ segments) :
    start ≤ segment.first ∧ 0 < segment.size ∧ segment.stop ≤ stop := by
  obtain ⟨left, right, rfl⟩ := List.append_of_mem member
  obtain ⟨middle, before, first, positive, after⟩ := append_iff.mp row
  exact ⟨first ▸ before.start_le, positive, after.start_le⟩

theorem stop_lt_stop {segments : List (Segment α)} {start stop : Nat}
    (row : BackToBack start segments stop) {m n : Nat} {former latter : Segment α} (before : m < n)
    (atFormer : segments[m]? = some former) (atLatter : segments[n]? = some latter) :
    former.stop ≤ latter.first ∧ former.stop < latter.stop := by
  induction segments generalizing start m n with
  | nil => simp at atFormer
  | cons segment rest ih =>
    obtain ⟨first, positive, tail⟩ := row
    cases n with
    | zero => omega
    | succ n =>
      rw [List.getElem?_cons_succ] at atLatter
      cases m with
      | zero =>
        rw [List.getElem?_cons_zero, Option.some.injEq] at atFormer
        subst atFormer
        have inside := tail.bounds (List.mem_of_getElem? atLatter)
        simp only [Segment.stop] at *
        omega
      | succ m => exact ih (m := m) (n := n) tail (by omega) (by simpa using atFormer) atLatter

theorem exists_containing {segments : List (Segment α)} {start stop index : Nat}
    (row : BackToBack start segments stop) (from_start : start ≤ index) (bound : index < stop) :
    ∃ (n : Nat) (segment : Segment α),
      segments[n]? = some segment ∧ segment.contains index = true := by
  induction segments generalizing start with
  | nil => have := nil_iff.mp row; omega
  | cons segment rest ih =>
    obtain ⟨first, positive, tail⟩ := row
    by_cases here : index < segment.stop
    · exact ⟨0, segment, rfl, Segment.contains_iff.mpr ⟨by omega, here⟩⟩
    · obtain ⟨n, found, atFound, holds⟩ := ih tail (by omega)
      exact ⟨n + 1, found, by simpa using atFound, holds⟩

end BackToBack
end VirtualList
