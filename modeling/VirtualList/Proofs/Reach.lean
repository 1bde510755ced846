import Mathlib.Data.Nat.Basic
import Mathlib.Order.Monotone.Defs
import VirtualList.Proofs.WindowHistory

namespace VirtualList

theorem saturate_saturate_add (left right : Nat) :
    saturate (saturate left + right) = saturate (left + right) := by
  simp only [saturate]; omega

namespace WindowShape

variable {shape : WindowShape} {first m n : Nat}

theorem bucketStart_eq (bound : first ≤ maxIndex) :
    shape.bucketStart first = shape.bucket * (first / shape.bucket) :=
  saturate_of_le (Nat.le_trans (Nat.mul_div_le first shape.bucket) bound)

theorem around_start (shape : WindowShape) (first : Nat) :
    (shape.around first).start = shape.bucketStart first - shape.margin := rfl

-- Cutting after each sum comes to the same as cutting once.
theorem around_stop (shape : WindowShape) (first : Nat) :
    (shape.around first).stop =
      saturate (shape.bucketStart first + shape.bucket + shape.margin) :=
  saturate_saturate_add ..

theorem bucketStart_mono (shape : WindowShape) : Monotone shape.bucketStart := by
  intro m n le
  exact saturate_mono (Nat.mul_le_mul_left _ (Nat.div_le_div_right le))

theorem start_mono (shape : WindowShape) : Monotone fun first => (shape.around first).start := by
  intro m n le
  exact Nat.sub_le_sub_right (bucketStart_mono shape le) _

theorem stop_mono (shape : WindowShape) : Monotone fun first => (shape.around first).stop := by
  intro m n le
  have bucket := saturate_mono (Nat.add_le_add_right (bucketStart_mono shape le) shape.bucket)
  exact saturate_mono (Nat.add_le_add_right bucket shape.margin)

theorem rangeAt_eq_ok (nonempty : 0 < shape.bucket) (first : Nat) :
    shape.rangeAt first = .ok (shape.around first) :=
  if_pos nonempty

theorem around_ordered (shape : WindowShape) (first : Nat) :
    (shape.around first).start ≤ (shape.around first).stop := by
  have bucket : shape.bucketStart first ≤ maxIndex := saturate_le _
  simp only [around_start, around_stop, saturate]
  omega

-- Only the bucket of one item at the very last position has a window without items.
theorem around_start_eq_stop_iff (nonempty : 0 < shape.bucket) :
    (shape.around first).start = (shape.around first).stop ↔
      shape.bucketStart first = maxIndex ∧ shape.margin = 0 := by
  have bucket : shape.bucketStart first ≤ maxIndex := saturate_le _
  have room : 0 < maxIndex := by decide
  simp only [around_start, around_stop, saturate]
  omega

theorem around_length_le (shape : WindowShape) (first : Nat) :
    (shape.around first).stop ≤ (shape.around first).start + (shape.bucket + 2 * shape.margin) := by
  simp only [around_start, around_stop, saturate]
  omega

theorem first_mem_around_iff (nonempty : 0 < shape.bucket) (bound : first ≤ maxIndex) :
    first ∈ shape.around first ↔ first ≠ maxIndex := by
  constructor
  · intro held last
    have stop : (shape.around first).stop ≤ maxIndex := saturate_le _
    have inside := held.2
    omega
  · intro inner
    exact mem_around nonempty (Nat.lt_of_le_of_ne bound inner) (by simp)

def Spans (shape : WindowShape) (first : Nat) : Prop :=
  shape.bucketStart first ≤ shape.margin ∧
    maxIndex ≤ shape.bucketStart first + shape.bucket + shape.margin

theorem around_of_spans (spans : shape.Spans first) : shape.around first = ⟨0, maxIndex⟩ := by
  have start : (shape.around first).start = 0 := Nat.sub_eq_zero_of_le spans.1
  have stop : (shape.around first).stop = maxIndex := by
    rw [around_stop]
    exact Nat.min_eq_right spans.2
  cases range : shape.around first with
  | mk lower upper =>
    simp only [range] at start stop
    rw [start, stop]

theorem around_eq_iff_bucketStart_eq_or :
    shape.around m = shape.around n ↔
      shape.bucketStart m = shape.bucketStart n ∨ shape.Spans m ∧ shape.Spans n := by
  constructor
  · intro same
    -- Equal starts of different buckets are both cut, and so are equal stops.
    have starts := congrArg IndexRange.start same
    have stops := congrArg IndexRange.stop same
    simp only [around_start, around_stop, saturate] at starts stops
    by_cases bucket : shape.bucketStart m = shape.bucketStart n
    · exact .inl bucket
    · exact .inr ⟨⟨by omega, by omega⟩, ⟨by omega, by omega⟩⟩
  · intro same
    cases same with
    | inl bucket => simp only [around, bucket]
    | inr spans => rw [around_of_spans spans.1, around_of_spans spans.2]

theorem bucketStart_eq_iff (former : m ≤ maxIndex) (latter : n ≤ maxIndex) :
    shape.bucketStart m = shape.bucketStart n ↔ m / shape.bucket = n / shape.bucket := by
  rw [bucketStart_eq former, bucketStart_eq latter]
  cases Nat.eq_zero_or_pos shape.bucket with
  | inl none => simp [none]
  | inr nonempty => exact Nat.mul_right_inj (Nat.ne_of_gt nonempty)

theorem not_spans (room : shape.bucket + 2 * shape.margin < maxIndex) : ¬ shape.Spans first := by
  intro spans
  have start := spans.1
  have stop := spans.2
  omega

theorem around_eq_iff (room : shape.bucket + 2 * shape.margin < maxIndex) (former : m ≤ maxIndex)
    (latter : n ≤ maxIndex) :
    shape.around m = shape.around n ↔ m / shape.bucket = n / shape.bucket := by
  rw [around_eq_iff_bucketStart_eq_or, bucketStart_eq_iff former latter]
  simp [not_spans room]

-- The window holds all items as near as the margin, and no more than a bucket and two margins. The
-- last position is in no window: it would need a stop past it.
theorem rangeAt_reach (shape : WindowShape) (nonempty : 0 < shape.bucket) (first : Nat)
    (bound : first ≤ maxIndex) :
    let bucket := shape.bucket * (first / shape.bucket)
    shape.bucketStart first = bucket ∧
    ∃ range, shape.rangeAt first = .ok range ∧
      (range.start : Int) = max 0 ((bucket : Int) - shape.margin) ∧
      (range.stop : Int) = min (maxIndex : Int) (bucket + shape.bucket + shape.margin) ∧
      (∀ index : Nat, index < maxIndex → (first : Int) - shape.margin ≤ index →
        (index : Int) ≤ first + shape.margin → index ∈ range) ∧
      (first ∈ range ↔ first ≠ maxIndex) ∧
      range.start ≤ range.stop ∧
      (range.start = range.stop ↔ bucket = maxIndex ∧ shape.margin = 0) ∧
      (range.stop : Int) - range.start ≤ shape.bucket + 2 * shape.margin ∧
      ∀ later, first ≤ later → ∃ other, shape.rangeAt later = .ok other ∧
        range.start ≤ other.start ∧ range.stop ≤ other.stop := by
  intro bucket
  have start : shape.bucketStart first = bucket := bucketStart_eq bound
  refine ⟨start, shape.around first, rangeAt_eq_ok nonempty first, ?_, ?_, ?_,
    first_mem_around_iff nonempty bound, around_ordered shape first, ?_, ?_, ?_⟩
  · rw [around_start, start]
    omega
  · rw [around_stop, start, saturate]
    omega
  · intro index inside lower upper
    exact mem_around nonempty inside (by omega)
  · rw [around_start_eq_stop_iff nonempty, start]
  · have length := around_length_le shape first
    omega
  · intro later le
    have returned := rangeAt_eq_ok nonempty later
    exact ⟨shape.around later, returned, start_mono shape le, stop_mono shape le⟩

theorem rangeAt_reach_last_index :
    0 < (WindowShape.mk 10 100).bucket ∧ maxIndex ≤ maxIndex ∧
      ∃ range, (WindowShape.mk 10 100).rangeAt maxIndex = .ok range ∧
        range.start = maxIndex - 105 ∧ range.stop = maxIndex ∧ maxIndex ∉ range ∧
        range.start < range.stop ∧
        ∀ index, maxIndex - 100 ≤ index → index < maxIndex → index ∈ range := by
  obtain ⟨_, range, accepted, start, stop, near, covered, order, empty, _, _⟩ :=
    rangeAt_reach ⟨10, 100⟩ (by decide) maxIndex (by decide)
  have last : maxIndex = 18446744073709551615 := rfl
  refine ⟨by decide, by decide, range, accepted, ?_, ?_, ?_, ?_, ?_⟩
  · simp [last] at start ⊢
    omega
  · simp [last] at stop ⊢
    omega
  · simp [covered]
  · refine Nat.lt_of_le_of_ne order ?_
    simp [empty]
  · intro index lower inside
    refine near index inside ?_ ?_
    · dsimp only
      omega
    · dsimp only
      omega

end WindowShape

namespace Window

variable {shape : WindowShape}

def followAll (window : Window) (firsts : List Nat) : Noted Window :=
  firsts.foldlM (fun window first => return (← window.follow first).1) window

theorem followAll_ofShape (nonempty : 0 < shape.bucket) (first : Nat) (firsts : List Nat) :
    ((ofShape shape nonempty first).followAll firsts).value =
      ofShape shape nonempty (firsts.getLastD first) := by
  induction firsts generalizing first with
  | nil => rfl
  | cons next rest ih =>
    have step : ((ofShape shape nonempty first).follow next).value.1 =
        ofShape shape nonempty next := congrArg Prod.fst (follow_ofShape shape nonempty first next)
    simp only [followAll, List.foldlM_cons, Noted.bind_value, Noted.pure_value, step,
      List.getLastD_cons]
    exact ih next

theorem follow_notices (window : Window) (next : Nat) :
    (window.follow next).notices =
      if (window.follow next).value.2 = true then
        [.windowMoved window.range (window.shape.around next) next]
      else [] := by
  unfold follow
  split
  · rfl
  · dsimp only
    split
    · rfl
    · rfl

theorem follow_severity (window : Window) (next : Nat) :
    ∀ notice ∈ (window.follow next).notices, notice.severity = .trace := by
  intro notice member
  rw [follow_notices] at member
  split at member
  · cases List.mem_singleton.mp member
    rfl
  · cases member

theorem follow_ofShape_moved_iff (nonempty : 0 < shape.bucket) (first next : Nat) :
    ((ofShape shape nonempty first).follow next).value.2 = true ↔
      ¬ (shape.bucketStart first = shape.bucketStart next ∨
        shape.Spans first ∧ shape.Spans next) := by
  rw [follow_ofShape, decide_eq_true_iff, ne_comm, ne_eq,
    WindowShape.around_eq_iff_bucketStart_eq_or]

-- However the window came to the item it followed last, it is the window around that item; and it
-- reports the next move exactly when the range is another one, which a change of bucket alone does
-- not make it.
theorem followAll_exact (shape : WindowShape) (nonempty : 0 < shape.bucket) (first : Nat)
    (firsts : List Nat) :
    ∃ initial window, start shape first = .ok initial ∧
      window = (initial.followAll firsts).value ∧
      let last := firsts.getLastD first
      let formerBucket := shape.bucket * (last / shape.bucket)
      shape.rangeAt last = .ok window.range ∧ window.shape = shape ∧
      ∀ next,
        let moved := (window.follow next).value.2
        let latterBucket := shape.bucket * (next / shape.bucket)
        (moved = true ↔ shape.rangeAt next ≠ .ok window.range) ∧
        (window.follow next).notices =
          (if moved = true then [.windowMoved window.range (shape.around next) next] else []) ∧
        (∀ notice ∈ (window.follow next).notices, notice.severity = .trace) ∧
        (last ≤ maxIndex → next ≤ maxIndex →
          (moved = true ↔ formerBucket ≠ latterBucket ∧
            ¬ (formerBucket ≤ shape.margin ∧ latterBucket ≤ shape.margin ∧
              maxIndex ≤ formerBucket + shape.bucket + shape.margin ∧
              maxIndex ≤ latterBucket + shape.bucket + shape.margin)) ∧
          (shape.bucket + 2 * shape.margin < maxIndex →
            (moved = true ↔ last / shape.bucket ≠ next / shape.bucket))) := by
  refine ⟨_, _, start_eq_ok_iff.mpr ⟨nonempty, rfl⟩, rfl, ?_⟩
  intro last formerBucket
  rw [followAll_ofShape]
  refine ⟨WindowShape.rangeAt_eq_ok nonempty last, rfl, ?_⟩
  intro next moved latterBucket
  have changed : moved = true ↔ _ := follow_ofShape_moved_iff nonempty last next
  refine ⟨?_, follow_notices _ next, follow_severity _ next, ?_⟩
  · rw [WindowShape.rangeAt_eq_ok nonempty, ne_eq, Except.ok.injEq]
    simp only [moved, follow_ofShape, decide_eq_true_eq]
    rfl
  · intro former latter
    constructor
    · rw [changed, WindowShape.Spans, WindowShape.Spans, WindowShape.bucketStart_eq former,
        WindowShape.bucketStart_eq latter, not_or, and_and_and_comm, and_assoc]
    · intro room
      rw [changed, WindowShape.bucketStart_eq_iff former latter]
      simp [WindowShape.not_spans room]

-- A margin as wide as all positions keeps the window where it is, whatever bucket comes next.
theorem followAll_exact_over_ends :
    0 < (WindowShape.mk 30 100).bucket ∧ 1000 ≤ maxIndex ∧ 1020 ≤ maxIndex ∧
      (WindowShape.mk 30 100).bucket + 2 * 100 < maxIndex ∧
      (∃ initial window, start ⟨30, 100⟩ 0 = .ok initial ∧
        window = (initial.followAll [5, 35, 1000]).value ∧ window.range = ⟨890, 1120⟩ ∧
        (window.follow 1019).value.2 = false ∧ (window.follow 1020).value.2 = true ∧
        (window.follow 1020).notices = [.windowMoved ⟨890, 1120⟩ ⟨920, 1150⟩ 1020]) ∧
      ∃ initial window, start ⟨30, maxIndex⟩ 0 = .ok initial ∧
        window = (initial.followAll [5, 35, 1000]).value ∧ window.range = ⟨0, maxIndex⟩ ∧
        (window.follow 1020).value.2 = false ∧ (window.follow 1020).notices = [] := by
  refine ⟨by decide, by decide, by decide, by decide, ?_, ?_⟩
  · obtain ⟨initial, window, made, ran, placed, _, next⟩ :=
      followAll_exact ⟨30, 100⟩ (by decide) 0 [5, 35, 1000]
    have range : window.range = ⟨890, 1120⟩ := (Except.ok.inj placed).symm
    have stayed : ¬ (window.follow 1019).value.2 = true := by
      rw [((next 1019).2.2.2 (by decide) (by decide)).2 (by decide)]
      decide
    have moved : (window.follow 1020).value.2 = true := by
      rw [((next 1020).2.2.2 (by decide) (by decide)).2 (by decide)]
      decide
    refine ⟨initial, window, made, ran, range, eq_false_of_ne_true stayed, moved, ?_⟩
    rw [(next 1020).2.1, if_pos moved, range]
    rfl
  · obtain ⟨initial, window, made, ran, placed, _, next⟩ :=
      followAll_exact ⟨30, maxIndex⟩ (by decide) 0 [5, 35, 1000]
    have stayed : ¬ (window.follow 1020).value.2 = true := by
      rw [((next 1020).2.2.2 (by decide) (by decide)).1]
      decide
    refine ⟨initial, window, made, ran, (Except.ok.inj placed).symm,
      eq_false_of_ne_true stayed, ?_⟩
    rw [(next 1020).2.1, if_neg stayed]

end Window
end VirtualList
