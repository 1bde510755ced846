import VirtualList.IndexRange

namespace VirtualList

-- All but `tooManyItems` are found out before anything is written.
inductive Fault where
  | emptyBucket
  | emptySegment
  | outOfBounds (index size : Nat)
  | invertedBounds (first last : Nat)
  | tooManyItems
  deriving DecidableEq, Repr

namespace Fault

def message : Fault → String
  | emptyBucket => "sliding_window_size should be > 0, but was 0"
  | emptySegment => "size should be > 0, but was 0"
  | outOfBounds index size => s!"Index {index}, size {size}"
  | invertedBounds first last =>
    s!"to_index ({last}) should not be smaller than from_index ({first})"
  | tooManyItems => "attempt to add with overflow"

end Fault
end VirtualList
