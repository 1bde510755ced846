import VirtualList.Proofs.Locating
import VirtualList.Proofs.Traversal

namespace VirtualList
namespace Segment

-- The run has an item between `first` and `last`, both included.
def meets (first last : Nat) (segment : Segment α) : Bool := !(segment.clip first last).isEmpty

variable {segment : Segment α} {segments : List (Segment α)} {first last : Nat}

theorem meets_iff :
    segment.meets first last = true ↔
      ∃ index, segment.contains index = true ∧ first ≤ index ∧ index ≤ last := by
  simp only [meets, Bool.not_eq_true', ← Bool.not_eq_true, IndexRange.isEmpty_iff, not_forall,
    not_not, mem_clip]

theorem filter_meets_of_ended (last : Nat) (ended : ∀ segment ∈ segments, segment.stop ≤ first) :
    segments.filter (meets first last) = [] := by
  apply List.filter_eq_nil_iff.mpr
  intro segment member shared
  obtain ⟨index, holds, started, _⟩ := meets_iff.mp shared
  have inside := contains_iff.mp holds
  have stop := ended segment member
  omega

theorem filter_meets_of_ahead (first : Nat) (ahead : ∀ segment ∈ segments, last < segment.first) :
    segments.filter (meets first last) = [] := by
  apply List.filter_eq_nil_iff.mpr
  intro segment member shared
  obtain ⟨index, holds, _, ended⟩ := meets_iff.mp shared
  have inside := contains_iff.mp holds
  have begins := ahead segment member
  omega

theorem meets_eq_first_le (positive : 0 < segment.size) (remains : first < segment.stop)
    (order : first ≤ last) : segment.meets first last = decide (segment.first ≤ last) := by
  rw [Bool.eq_iff_iff, meets_iff, decide_eq_true_iff]
  constructor
  · intro shared
    obtain ⟨index, holds, _, ended⟩ := shared
    exact Nat.le_trans (contains_iff.mp holds).1 ended
  · intro early
    have started : segment.first < segment.stop := Nat.lt_add_of_pos_right positive
    refine ⟨max first segment.first, contains_iff.mpr ?_, Nat.le_max_left .., ?_⟩
    · omega
    · omega

end Segment

namespace BackToBack

-- The runs of a row start one after the other, so that none starts early behind one that starts
-- late.
theorem takeWhile_eq_filter {segments : List (Segment α)} {start stop : Nat}
    (row : BackToBack start segments stop) (last : Nat) :
    segments.takeWhile (·.first ≤ last) = segments.filter (·.first ≤ last) := by
  induction segments generalizing start with
  | nil => rfl
  | cons segment rest ih =>
    obtain ⟨_, _, tail⟩ := row
    by_cases early : segment.first ≤ last
    · simp [early, ih tail]
    · have late : rest.filter (·.first ≤ last) = [] := by
        apply List.filter_eq_nil_iff.mpr
        intro other member
        have begins := (tail.bounds member).1
        simp only [Segment.stop] at begins
        simp only [decide_eq_true_eq]
        omega
      simp [early, late]

end BackToBack

namespace SegmentList

-- Why a walk is refused. Of several reasons the first counts.
inductive Refusal (list : SegmentList α) (first last : Nat) : Fault → Prop where
  | first : list.size ≤ first → Refusal list first last (.outOfBounds first list.size)
  | last : first < list.size → list.size ≤ last →
      Refusal list first last (.outOfBounds last list.size)
  | order : first < list.size → last < list.size → last < first →
      Refusal list first last (.invertedBounds first last)

variable {α : Type} {list : SegmentList α} {first last : Nat}

theorem refusal_or_inside (list : SegmentList α) (first last : Nat) :
    (∃ fault, Refusal list first last fault) ∨ first ≤ last ∧ last < list.size := by
  rcases Nat.lt_or_ge first list.size with begins | outside
  · rcases Nat.lt_or_ge last list.size with ends | beyond
    · rcases Nat.lt_or_ge last first with inverted | order
      · exact .inl ⟨_, .order begins ends inverted⟩
      · exact .inr ⟨order, ends⟩
    · exact .inl ⟨_, .last begins beyond⟩
  · exact .inl ⟨_, .first outside⟩

theorem visit_of_refusal {fault : Fault} (refusal : Refusal list first last fault) :
    list.visit first last = .error fault := by
  cases refusal with
  | first outside => simp [visit, requireIndex_of_size_le outside, bind, Except.bind]
  | last begins beyond =>
    simp [visit, requireIndex_of_lt begins, requireIndex_of_size_le beyond, bind, Except.bind]
  | order begins ends inverted =>
    simp [visit, requireIndex_of_lt begins, requireIndex_of_lt ends, inverted, bind, Except.bind,
      throw, throwThe, MonadExceptOf.throw]

theorem visit_eq_error_iff {fault : Fault} :
    list.visit first last = .error fault ↔ Refusal list first last fault := by
  constructor
  · intro refused
    rcases refusal_or_inside list first last with ⟨other, refusal⟩ | ⟨order, bound⟩
    · have same := visit_of_refusal refusal
      cases Except.error.inj (refused.symm.trans same)
      exact refusal
    · rw [visit_eq_ok order bound] at refused
      cases refused
  · exact visit_of_refusal

theorem overlapping_eq_filter (list : SegmentList α) (order : first ≤ last) :
    list.overlapping first last = list.toList.filter (Segment.meets first last) := by
  have parts := parts_place list first
  have row := list.backToBack
  rw [← List.take_append_drop (list.place first) list.toList] at row
  obtain ⟨middle, _, rest⟩ := BackToBack.append_iff.mp row
  have passed := Segment.filter_meets_of_ended last parts.ended
  have remaining : (list.toList.drop (list.place first)).filter (Segment.meets first last) =
      (list.toList.drop (list.place first)).filter (·.first ≤ last) := by
    apply List.filter_congr
    intro segment late
    exact Segment.meets_eq_first_le (rest.bounds late).2.1 (parts.remains segment late) order
  calc list.overlapping first last
      = (list.toList.drop (list.place first)).takeWhile (·.first ≤ last) := startingBy_eq ..
    _ = (list.toList.drop (list.place first)).filter (Segment.meets first last) := by
        rw [rest.takeWhile_eq_filter last, remaining]
    _ = (list.toList.take (list.place first) ++ list.toList.drop (list.place first)).filter
          (Segment.meets first last) := by
        rw [List.filter_append, passed, List.nil_append]
    _ = list.toList.filter (Segment.meets first last) := by rw [List.take_append_drop]

theorem mem_overlapping (order : first ≤ last) {segment : Segment α} :
    segment ∈ list.overlapping first last ↔ segment ∈ list.toList ∧
      ∃ index, segment.contains index = true ∧ first ≤ index ∧ index ≤ last := by
  rw [overlapping_eq_filter list order, List.mem_filter, Segment.meets_iff]

theorem overlapping_infix (list : SegmentList α) (first last : Nat) :
    list.overlapping first last <:+: list.toList := by
  rw [overlapping, startingBy_eq]
  exact (List.takeWhile_prefix _).isInfix.trans (List.drop_suffix _ _).isInfix

theorem overlapping_head (order : first ≤ last) (bound : last < list.size) :
    ∃ head, (list.overlapping first last).head? = some head ∧ head.contains first = true := by
  obtain ⟨segment, found⟩ := exists_find? (Nat.lt_of_le_of_lt order bound)
  obtain ⟨before, after, split, ended, _⟩ := exists_split found
  have holds := contains_of_find? found
  have kept := Segment.meets_iff.mpr ⟨first, holds, Nat.le_refl _, order⟩
  have passed := Segment.filter_meets_of_ended last ended
  exact ⟨segment, by simp [overlapping_eq_filter list order, split, passed, kept], holds⟩

theorem overlapping_last (order : first ≤ last) (bound : last < list.size) :
    ∃ final, (list.overlapping first last).getLast? = some final ∧
      final.contains last = true := by
  obtain ⟨segment, found⟩ := exists_find? bound
  obtain ⟨before, after, split, _, ahead⟩ := exists_split found
  have holds := contains_of_find? found
  have kept := Segment.meets_iff.mpr ⟨last, holds, order, Nat.le_refl _⟩
  have missed := Segment.filter_meets_of_ahead first ahead
  exact ⟨segment, by simp [overlapping_eq_filter list order, split, missed, kept], holds⟩

end SegmentList

namespace Guarded

variable {α σ : Type} {list : SegmentList α} {last n : Nat}

theorem walkFrom_eq (block : σ → Segment α → Guarded σ) (state : σ) :
    walkFrom list last block n state = (list.startingBy last n).foldlM block state := by
  fun_induction SegmentList.startingBy list last n generalizing state with
  | case1 n bound segment early ih =>
    rw [walkFrom, dif_pos bound, List.foldlM_cons]
    simp only [ih]
    exact if_pos early
  | case2 n bound segment late =>
    rw [walkFrom, dif_pos bound]
    exact if_neg late
  | case3 n bound => rw [walkFrom, dif_neg bound, List.foldlM_nil]

-- The trap stands alone, whatever the block would have noted.
theorem forEach_eq (list : SegmentList α) (first last : Nat) (block : σ → Segment α → Guarded σ)
    (state : σ) :
    forEach list first last block state =
      match list.visit first last with
      | .ok visited => visited.foldlM block state
      | .error fault => throw (.fault fault) := by
  rcases list.refusal_or_inside first last with ⟨fault, refusal⟩ | ⟨order, bound⟩
  · rw [SegmentList.visit_of_refusal refusal]
    cases refusal with
    | first outside =>
      simp only [forEach, SegmentList.requireIndex_of_size_le outside]
      rfl
    | last begins beyond =>
      simp only [forEach, SegmentList.requireIndex_of_lt begins,
        SegmentList.requireIndex_of_size_le beyond]
      rfl
    | order begins ends inverted =>
      simp only [forEach, SegmentList.requireIndex_of_lt begins, SegmentList.requireIndex_of_lt ends,
        inverted, if_true]
      rfl
  · have begins := Nat.lt_of_le_of_lt order bound
    rw [SegmentList.visit_eq_ok order bound]
    simp only [forEach, SegmentList.requireIndex_of_lt begins, SegmentList.requireIndex_of_lt bound,
      ofFault, pure_bind, if_neg (Nat.not_lt.mpr order), place_eq, place_slot begins, walkFrom_eq]
    rfl

end Guarded

namespace SegmentList

-- A walk is refused for one of three reasons and then does nothing. Otherwise it comes past the
-- runs that have an item between its ends, which lie side by side from the run of its first item to
-- the run of its last; what they have between its ends is every item there, once and in order.
theorem visit_exact {α : Type} (list : SegmentList α) (first last : Nat) :
    (∀ {σ : Type} (block : σ → Segment α → Guarded σ) (state : σ),
      Guarded.forEach list first last block state =
        match list.visit first last with
        | .ok visited => visited.foldlM block state
        | .error fault => throw (.fault fault)) ∧
    (∀ fault, list.visit first last = .error fault ↔ Refusal list first last fault) ∧
    (first ≤ last → last < list.size → ∃ visited, list.visit first last = .ok visited ∧
      visited = list.toList.filter (Segment.meets first last) ∧
      (∀ segment, segment ∈ visited ↔ segment ∈ list.toList ∧
        ∃ index, segment.contains index = true ∧ first ≤ index ∧ index ≤ last) ∧
      visited <:+: list.toList ∧
      (∃ head, visited.head? = some head ∧ head.contains first = true) ∧
      (∃ final, visited.getLast? = some final ∧ final.contains last = true) ∧
      visited.flatMap (fun segment => (segment.clip first last).indices) =
        List.range' first (last + 1 - first)) := by
  refine ⟨?_, fun fault => visit_eq_error_iff, ?_⟩
  · intro σ block state
    exact Guarded.forEach_eq list first last block state
  · intro order bound
    exact ⟨list.overlapping first last, visit_eq_ok order bound, overlapping_eq_filter list order,
      fun segment => mem_overlapping order, overlapping_infix list first last,
      overlapping_head order bound, overlapping_last order bound,
      overlapping_clip_indices order bound⟩

theorem visit_exact_up_to_last_index :
    ∃ list, empty.appendAll [(3, 'a'), (2, 'b'), (maxIndex - 5, 'c')] = .ok list ∧
      list.size = maxIndex ∧ 4 ≤ maxIndex - 1 ∧ maxIndex - 1 < list.size ∧
      list.visit 4 (maxIndex - 1) = .ok [⟨3, 2, 'b'⟩, ⟨5, maxIndex - 5, 'c'⟩] ∧
      list.visit maxIndex 4 = .error (.outOfBounds maxIndex maxIndex) ∧
      list.visit 4 maxIndex = .error (.outOfBounds maxIndex maxIndex) ∧
      list.visit 4 3 = .error (.invertedBounds 4 3) ∧
      Guarded.forEach list 4 3 (fun _ _ => Guarded.ofNoted (Noted.note (.firstMoved 0 0))) () =
        throw (.fault (.invertedBounds 4 3)) := by
  obtain ⟨list, built, size, laid⟩ := exists_appendAll empty
    [(3, 'a'), (2, 'b'), (maxIndex - 5, 'c')] (by simp [maxIndex]) (by decide)
  have full : list.size = maxIndex := size.trans (by decide)
  have row : list.toList = [⟨0, 3, 'a'⟩, ⟨3, 2, 'b'⟩, ⟨5, maxIndex - 5, 'c'⟩] := laid
  have order : 4 ≤ maxIndex - 1 := by decide
  have bound : maxIndex - 1 < list.size := by rw [full]; decide
  obtain ⟨_, _, inside⟩ := visit_exact list 4 (maxIndex - 1)
  obtain ⟨visited, walked, exactly, _⟩ := inside order bound
  have filtered : visited = [⟨3, 2, 'b'⟩, ⟨5, maxIndex - 5, 'c'⟩] := by
    rw [exactly, row]
    decide
  have outside : list.visit maxIndex 4 = .error (.outOfBounds maxIndex list.size) :=
    ((visit_exact list maxIndex 4).2.1 _).mpr (.first (Nat.le_of_eq full))
  have beyond : list.visit 4 maxIndex = .error (.outOfBounds maxIndex list.size) :=
    ((visit_exact list 4 maxIndex).2.1 _).mpr (.last (by rw [full]; decide) (Nat.le_of_eq full))
  obtain ⟨walks, refused, _⟩ := visit_exact list 4 3
  have inverted : list.visit 4 3 = .error (.invertedBounds 4 3) :=
    (refused _).mpr (.order (by rw [full]; decide) (by rw [full]; decide) (by decide))
  refine ⟨list, built, full, order, bound, filtered ▸ walked, full ▸ outside, full ▸ beyond,
    inverted, ?_⟩
  rw [walks, inverted]

end SegmentList
end VirtualList
