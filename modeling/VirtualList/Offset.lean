namespace VirtualList

-- Held by its encoding, so that a NaN keeps its sign and payload. No offset is computed with.
structure Offset where
  bits : UInt32
  deriving DecidableEq, Repr

namespace Offset

def zero : Offset := ⟨0⟩

instance : Inhabited Offset := ⟨zero⟩

end Offset
end VirtualList
