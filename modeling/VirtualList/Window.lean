import VirtualList.Fault
import VirtualList.Notice

namespace VirtualList

structure WindowShape where
  bucket : Nat
  margin : Nat
  deriving DecidableEq, Repr

namespace WindowShape

def list : WindowShape := ⟨30, 100⟩

def grid : WindowShape := ⟨90, 200⟩

instance : Inhabited WindowShape := ⟨list⟩

def bucketStart (shape : WindowShape) (first : Nat) : Nat :=
  saturate (shape.bucket * (first / shape.bucket))

def around (shape : WindowShape) (first : Nat) : IndexRange where
  start := shape.bucketStart first - shape.margin
  stop := saturate (saturate (shape.bucketStart first + shape.bucket) + shape.margin)

def rangeAt (shape : WindowShape) (first : Nat) : Except Fault IndexRange :=
  if 0 < shape.bucket then .ok (shape.around first) else .error .emptyBucket

end WindowShape

-- `range` is kept because its changes are what a table of keys has to be rebuilt for.
@[ext]
structure Window where
  shape : WindowShape
  first : Nat
  range : IndexRange
  nonempty : 0 < shape.bucket

namespace Window

def ofShape (shape : WindowShape) (nonempty : 0 < shape.bucket) (first : Nat) : Window :=
  ⟨shape, first, shape.around first, nonempty⟩

def start (shape : WindowShape) (first : Nat) : Except Fault Window :=
  if nonempty : 0 < shape.bucket then .ok (ofShape shape nonempty first) else .error .emptyBucket

instance : Inhabited Window := ⟨ofShape .list (by decide) 0⟩

-- While the first visible item stays the same the range is not computed.
def follow (window : Window) (first : Nat) : Noted (Window × Bool) :=
  if first = window.first then pure (window, false)
  else
    let range := window.shape.around first
    if range = window.range then pure ({ window with first }, false)
    else do
      Noted.note (.windowMoved window.range range first)
      return ({ window with first, range }, true)

@[simp] theorem follow_shape (window : Window) (first : Nat) :
    (window.follow first).value.1.shape = window.shape := by
  unfold follow
  split
  · rfl
  · dsimp only
    split <;> rfl

@[simp] theorem follow_first (window : Window) (first : Nat) :
    (window.follow first).value.1.first = first := by
  unfold follow
  split
  · rename_i same
    exact same.symm
  · dsimp only
    split <;> rfl

end Window
end VirtualList
