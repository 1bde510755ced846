import VirtualList.Window

-- A window forgets its past: whatever it followed on the way, it is the window that would be made
-- around the item it followed last.
namespace VirtualList
namespace WindowShape

theorem mem_around {shape : WindowShape} (nonempty : 0 < shape.bucket) {first index : Nat}
    (bound : index < maxIndex) (near : ((index : Int) - first).natAbs ≤ shape.margin) :
    index ∈ shape.around first := by
  have lower : shape.bucket * (first / shape.bucket) ≤ first := Nat.mul_div_le first shape.bucket
  have upper : first < shape.bucket * (first / shape.bucket) + shape.bucket :=
    Nat.lt_mul_div_succ first nonempty
  simp only [IndexRange.mem_iff, around, bucketStart, saturate]
  constructor
  · omega
  · omega

end WindowShape

namespace Window

theorem follow_ofShape (shape : WindowShape) (nonempty : 0 < shape.bucket) (first next : Nat) :
    ((ofShape shape nonempty first).follow next).value =
      (ofShape shape nonempty next, decide (shape.around next ≠ shape.around first)) := by
  by_cases same : next = first
  · subst next
    simp [follow, ofShape]
  · by_cases kept : shape.around next = shape.around first
    · simp [follow, ofShape, same, kept]
    · simp [follow, ofShape, same, kept]

theorem start_eq_ok_iff {shape : WindowShape} {first : Nat} {window : Window} :
    start shape first = .ok window ↔
      ∃ nonempty : 0 < shape.bucket, window = ofShape shape nonempty first := by
  unfold start
  split
  · rename_i nonempty
    constructor
    · intro made
      cases made
      exact ⟨nonempty, rfl⟩
    · intro made
      obtain ⟨_, rfl⟩ := made
      rfl
  · rename_i empty
    constructor
    · intro made
      cases made
    · intro made
      obtain ⟨nonempty, _⟩ := made
      exact absurd nonempty empty

inductive Reached : Window → Prop where
  | start {shape : WindowShape} {first : Nat} {window : Window} :
      start shape first = .ok window → Reached window
  | standard : Reached default
  | follow {window : Window} (first : Nat) :
      Reached window → Reached (window.follow first).value.1

theorem ofShape_reached (shape : WindowShape) (nonempty : 0 < shape.bucket) (first : Nat) :
    Reached (ofShape shape nonempty first) :=
  .start (start_eq_ok_iff.mpr ⟨nonempty, rfl⟩)

theorem reached_ofShape {window : Window} (path : Reached window) :
    window = ofShape window.shape window.nonempty window.first := by
  induction path with
  | start accepted =>
    obtain ⟨nonempty, rfl⟩ := start_eq_ok_iff.mp accepted
    rfl
  | standard => rfl
  | @follow window first path ih =>
    have next := follow_ofShape window.shape window.nonempty window.first first
    rw [← ih] at next
    rw [next]
    rfl

theorem eq_of_reached {left right : Window} (leftPath : Reached left) (rightPath : Reached right)
    (sameShape : left.shape = right.shape) (sameFirst : left.first = right.first) :
    left = right := by
  have ranges : left.range = right.range := by
    rw [reached_ofShape leftPath, reached_ofShape rightPath]
    simp only [ofShape, sameShape, sameFirst]
  exact Window.ext sameShape sameFirst ranges

end Window
end VirtualList
