namespace VirtualList

-- Sums of positions are cut at `maxIndex` or refused, so that nothing wraps around.
def maxIndex : Nat := 0xFFFFFFFFFFFFFFFF

def saturate (n : Nat) : Nat := min n maxIndex

theorem saturate_le (n : Nat) : saturate n ≤ maxIndex := Nat.min_le_right ..

theorem saturate_of_le (bounded : n ≤ maxIndex) : saturate n = n := Nat.min_eq_left bounded

theorem saturate_mono (le : m ≤ n) : saturate m ≤ saturate n := by
  unfold saturate; omega

-- `stop` is not covered, and an inverted range is a value that covers nothing.
structure IndexRange where
  start : Nat
  stop : Nat
  deriving DecidableEq, Repr, Inhabited

namespace IndexRange

def nowhere : IndexRange := ⟨0, 0⟩

instance : Membership Nat IndexRange :=
  ⟨fun range index => range.start ≤ index ∧ index < range.stop⟩

theorem mem_iff {range : IndexRange} {index : Nat} :
    index ∈ range ↔ range.start ≤ index ∧ index < range.stop := .rfl

instance (index : Nat) (range : IndexRange) : Decidable (index ∈ range) :=
  inferInstanceAs (Decidable (_ ∧ _))

theorem mem_succ {start stop index : Nat} (order : start ≤ stop) :
    index ∈ mk start (stop + 1) ↔ index ∈ mk start stop ∨ index = stop := by
  simp only [mem_iff]; omega

def size (range : IndexRange) : Nat := range.stop - range.start

def isEmpty (range : IndexRange) : Bool := range.stop ≤ range.start

theorem isEmpty_iff {range : IndexRange} : range.isEmpty = true ↔ ∀ index, index ∉ range := by
  simp only [isEmpty, decide_eq_true_eq, mem_iff]
  exact ⟨fun inverted index held => by omega, fun none => by have := none range.start; omega⟩

def indices (range : IndexRange) : List Nat := List.range' range.start range.size

theorem mem_indices {range : IndexRange} {index : Nat} : index ∈ range.indices ↔ index ∈ range := by
  simp only [indices, List.mem_range'_1, mem_iff, size]; omega

theorem indices_eq_nil {range : IndexRange} (inverted : range.stop ≤ range.start) :
    range.indices = [] := by
  rw [indices, size, Nat.sub_eq_zero_of_le inverted, List.range'_zero]

theorem indices_append {start middle stop : Nat} (lower : start ≤ middle) (upper : middle ≤ stop) :
    (mk start middle).indices ++ (mk middle stop).indices = (mk start stop).indices := by
  obtain ⟨before, rfl⟩ := Nat.exists_eq_add_of_le lower
  obtain ⟨after, rfl⟩ := Nat.exists_eq_add_of_le upper
  have whole : start + before + after - start = before + after := by omega
  simp only [indices, size, Nat.add_sub_cancel_left, whole, List.range'_append_1]

theorem indices_succ {start stop : Nat} (order : start ≤ stop) :
    (mk start (stop + 1)).indices = (mk start stop).indices ++ [stop] := by
  have last : (mk stop (stop + 1)).indices = [stop] := by
    rw [indices, size, Nat.add_sub_cancel_left, List.range'_one]
  rw [← indices_append order (Nat.le_succ stop), last]

theorem not_mem_of_le {range : IndexRange} (inverted : range.stop ≤ range.start) (index : Nat) :
    index ∉ range :=
  isEmpty_iff.mp (decide_eq_true inverted) index

def clip (range : IndexRange) (count : Nat) : IndexRange := ⟨range.start, min range.stop count⟩

theorem mem_clip {range : IndexRange} {count index : Nat} :
    index ∈ range.clip count ↔ index ∈ range ∧ index < count := by
  simp only [clip, mem_iff]; omega

theorem clip_isEmpty_iff {range : IndexRange} {count : Nat} :
    (range.clip count).isEmpty = true ↔ min range.stop count ≤ range.start := decide_eq_true_iff

theorem clip_last {range : IndexRange} {count : Nat} (order : range.start < min range.stop count) :
    1 ≤ min range.stop count ∧ range.start ≤ min range.stop count - 1 ∧
      min range.stop count - 1 < count := by
  omega

def text (range : IndexRange) : String := s!"{range.start}..{range.stop}"

end IndexRange
end VirtualList
