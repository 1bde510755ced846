import VirtualList.IndexRange

namespace VirtualList

-- The two kinds never meet, whatever their numbers.
inductive ItemKey where
  | authored (id : UInt64)
  | positional (index : Nat)
  deriving DecidableEq, Hashable, Repr, Inhabited

namespace ItemKey

def isAuthored : ItemKey → Bool
  | authored _ => true
  | positional _ => false

def isPositional : ItemKey → Bool
  | authored _ => false
  | positional _ => true

def number : ItemKey → Nat
  | authored id => id.toNat
  | positional index => index

def text : ItemKey → String
  | authored id => s!"User({id.toNat})"
  | positional index => s!"Index({index})"

end ItemKey
end VirtualList
