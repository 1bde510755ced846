import VirtualList.Proofs.GuardsHold
import VirtualList.Proofs.Growth

namespace VirtualList
namespace SegmentList

-- The first `n` runs have ended by `index`, the others have not.
structure Parts (list : SegmentList α) (index n : Nat) : Prop where
  inside : n ≤ list.length
  ended : ∀ segment ∈ list.toList.take n, segment.stop ≤ index
  remains : ∀ segment ∈ list.toList.drop n, index < segment.stop

variable {α : Type} {list : SegmentList α} {segment : Segment α} {index : Nat}

theorem exists_split (found : list.find? index = some segment) :
    ∃ before after, list.toList = before ++ segment :: after ∧
      (∀ other ∈ before, other.stop ≤ index) ∧ ∀ other ∈ after, index < other.first := by
  obtain ⟨member, holds⟩ := find?_eq_some_iff.mp found
  obtain ⟨started, goesOn⟩ := Segment.contains_iff.mp holds
  obtain ⟨before, after, split⟩ := List.append_of_mem member
  have row := list.backToBack
  rw [split] at row
  obtain ⟨middle, former, first, _, latter⟩ := BackToBack.append_iff.mp row
  refine ⟨before, after, split, ?_, ?_⟩
  · intro other early
    have ended := (former.bounds early).2.2
    omega
  · intro other late
    have begins := (latter.bounds late).1
    omega

theorem find?_eq_scan (list : SegmentList α) (index : Nat) :
    list.find? index = list.toList.find? (index < ·.stop) := by
  cases found : list.find? index with
  | none =>
    have beyond := find?_eq_none_iff.mp found
    symm
    apply List.find?_eq_none.mpr
    intro segment member
    have bounds := list.backToBack.bounds member
    simp only [decide_eq_true_eq]
    omega
  | some segment =>
    obtain ⟨before, after, split, ended, _⟩ := exists_split found
    have goesOn := (Segment.contains_iff.mp (contains_of_find? found)).2
    symm
    apply List.find?_eq_some_iff_append.mpr
    refine ⟨by simpa using goesOn, before, after, split, ?_⟩
    intro other early
    simpa using ended other early

theorem exists_find? (bound : index < list.size) : ∃ segment, list.find? index = some segment := by
  cases found : list.find? index with
  | none => exact absurd bound (Nat.not_lt_of_le (find?_eq_none_iff.mp found))
  | some segment => exact ⟨segment, rfl⟩

theorem filter_contains (found : list.find? index = some segment) :
    list.toList.filter (·.contains index) = [segment] := by
  obtain ⟨before, after, split, ended, ahead⟩ := exists_split found
  have holds := contains_of_find? found
  have noneBefore : before.filter (·.contains index) = [] := by
    apply List.filter_eq_nil_iff.mpr
    intro other early covers
    have inside := Segment.contains_iff.mp covers
    have stop := ended other early
    omega
  have noneAfter : after.filter (·.contains index) = [] := by
    apply List.filter_eq_nil_iff.mpr
    intro other late covers
    have inside := Segment.contains_iff.mp covers
    have begins := ahead other late
    omega
  simp [split, holds, noneBefore, noneAfter]

theorem ended_pairwise (list : SegmentList α) (index : Nat) :
    list.toList.Pairwise fun former latter => latter.stop ≤ index → former.stop ≤ index := by
  apply List.pairwise_iff_getElem.mpr
  intro m n former latter before ended
  have order := list.backToBack.stop_lt_stop before (List.getElem?_eq_getElem former)
    (List.getElem?_eq_getElem latter)
  omega

theorem place_of_size_le (beyond : list.size ≤ index) : list.place index = list.length := by
  refine bisect_eq (Nat.zero_le _) (Nat.le_refl _) ?_ ?_
  · intro n _ bound
    have inside : n < list.segments.size := bound
    have ended := (list.backToBack.bounds (Array.getElem_mem_toList inside)).2.2
    simp only [Array.getElem?_eq_getElem inside, Option.all_some, decide_eq_false_iff_not]
    omega
  · intro n late bound
    exact absurd bound (Nat.not_lt_of_le late)

theorem parts_place (list : SegmentList α) (index : Nat) : Parts list index (list.place index) := by
  cases found : list.find? index with
  | none =>
    have beyond := find?_eq_none_iff.mp found
    have whole : list.toList.length = list.length := rfl
    rw [place_of_size_le beyond]
    refine ⟨Nat.le_refl _, ?_, ?_⟩
    · intro segment early
      have ended := (list.backToBack.bounds (List.mem_of_mem_take early)).2.2
      omega
    · intro segment late
      simp [← whole] at late
  | some segment =>
    obtain ⟨before, after, split, ended, ahead⟩ := exists_split found
    have holds := contains_of_find? found
    have place : list.place index = before.length := by
      refine place_eq ?_ holds
      simp [split]
    have whole : list.toList.length = list.length := rfl
    refine ⟨?_, ?_, ?_⟩
    · simp [place, ← whole, split]
    · simpa [place, split] using ended
    · intro other late
      simp only [place, split, List.drop_left] at late
      rcases List.mem_cons.mp late with rfl | later
      · exact (Segment.contains_iff.mp holds).2
      · have begins := ahead other later
        exact Nat.lt_of_lt_of_le begins (Nat.le_add_right ..)

theorem Parts.not_lt {m n : Nat} (left : Parts list index m) (right : Parts list index n) :
    ¬ m < n := by
  intro before
  have bound : m < list.toList.length := Nat.lt_of_lt_of_le before right.inside
  have ended := right.ended list.toList[m] (List.mem_take_iff_getElem.mpr ⟨m, by omega, rfl⟩)
  have remains := left.remains list.toList[m] (by
    rw [List.drop_eq_getElem_cons bound]
    exact List.mem_cons_self)
  omega

-- Halving needs no more than that it ends where the runs part: there is one such place.
theorem parts_iff {n : Nat} : Parts list index n ↔ n = list.place index := by
  have placed := parts_place list index
  constructor
  · intro parts
    exact Nat.le_antisymm (Nat.le_of_not_lt (placed.not_lt parts))
      (Nat.le_of_not_lt (parts.not_lt placed))
  · intro same
    exact same ▸ placed

end SegmentList

namespace Guarded

theorem segmentAt_eq {α : Type} (list : SegmentList α) (index : Nat) :
    segmentAt list index = ofFault (list.segmentAt index) := by
  rcases Nat.lt_or_ge index list.size with bound | beyond
  · obtain ⟨segment, found⟩ := SegmentList.exists_find? bound
    have atPlace := found
    unfold SegmentList.find? at atPlace
    rw [if_pos bound] at atPlace
    simp only [segmentAt, SegmentList.segmentAt, SegmentList.requireIndex_of_lt bound, found,
      ofFault, place_eq, pure_bind, atPlace]
  · have missing := SegmentList.find?_eq_none_iff.mpr beyond
    simp only [segmentAt, SegmentList.segmentAt, SegmentList.requireIndex_of_size_le beyond, missing]
    rfl

end Guarded

namespace SegmentList

-- An item of the list is in one run and no other, which both look-ups answer with; it is the first
-- run that a scan finds not to have ended by the item. Past the end one look-up has no answer, and
-- the other is refused.
theorem lookup_exact {α : Type} (list : SegmentList α) (index : Nat) :
    (list.toList.Pairwise fun former latter => latter.stop ≤ index → former.stop ≤ index) ∧
    (∀ n, Parts list index n ↔ n = list.place index) ∧
    Guarded.find? list index = pure (list.find? index) ∧
    Guarded.segmentAt list index = Guarded.ofFault (list.segmentAt index) ∧
    (index < list.size → ∃ segment, list.segmentAt index = .ok segment ∧
      list.find? index = some segment ∧
      list.toList.filter (·.contains index) = [segment] ∧
      list.toList.find? (index < ·.stop) = some segment) ∧
    (list.size ≤ index → list.find? index = none ∧
      ∃ fault, list.segmentAt index = .error fault ∧
        fault.message = s!"Index {index}, size {list.size}") := by
  refine ⟨ended_pairwise list index, fun n => parts_iff, Guarded.find?_eq list index,
    Guarded.segmentAt_eq list index, ?_, ?_⟩
  · intro bound
    obtain ⟨segment, found⟩ := exists_find? bound
    have scanned := find?_eq_scan list index
    rw [found] at scanned
    exact ⟨segment, by simp [segmentAt, found], found, filter_contains found, scanned.symm⟩
  · intro beyond
    have missing := find?_eq_none_iff.mpr beyond
    exact ⟨missing, .outOfBounds index list.size, by simp [segmentAt, missing], rfl⟩

theorem lookup_exact_up_to_last_index :
    ∃ list, empty.appendAll [(1, 'a'), (maxIndex - 1, 'b')] = .ok list ∧
      0 < list.size ∧ list.find? 0 = some ⟨0, 1, 'a'⟩ ∧
      maxIndex - 1 < list.size ∧ list.segmentAt (maxIndex - 1) = .ok ⟨1, maxIndex - 1, 'b'⟩ ∧
      list.size ≤ maxIndex ∧ list.find? maxIndex = none := by
  obtain ⟨list, built, size, laid⟩ := exists_appendAll empty
    [(1, 'a'), (maxIndex - 1, 'b')] (by simp [maxIndex]) (by decide)
  have full : list.size = maxIndex := size.trans (by decide)
  have row : list.toList = [⟨0, 1, 'a'⟩, ⟨1, maxIndex - 1, 'b'⟩] := laid
  have inner : 0 < list.size := by rw [full]; decide
  have final : maxIndex - 1 < list.size := by rw [full]; decide
  obtain ⟨head, _, found, _, scanned⟩ := (lookup_exact list 0).2.2.2.2.1 inner
  obtain ⟨last, located, _, _, reached⟩ := (lookup_exact list (maxIndex - 1)).2.2.2.2.1 final
  rw [row] at scanned reached
  cases Option.some.inj (scanned.symm.trans rfl)
  cases Option.some.inj (reached.symm.trans rfl)
  have beyond := Nat.le_of_eq full
  exact ⟨list, built, inner, found, final, located, beyond,
    ((lookup_exact list maxIndex).2.2.2.2.2 beyond).1⟩

end SegmentList
end VirtualList
