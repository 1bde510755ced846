import VirtualList.Viewport
import VirtualList.WindowedItems

-- The machine stops at every fault, and where the library would cut a difference at zero, ask a group
-- for an item that it does not have, or leave a slot outside an array unwritten.
namespace VirtualList

inductive Trap where
  | sum (left right : Nat)
  | difference (left right : Nat)
  | slot (index size : Nat)
  | item (inner size : Nat)
  | fault (fault : Fault)
  deriving DecidableEq, Repr

-- What was noted before a trap stays noted.
abbrev Guarded := ExceptT Trap Noted

namespace Guarded

def ofNoted (noted : Noted α) : Guarded α := ExceptT.mk ⟨.ok noted.value, noted.notices⟩

def ofFault : Except Fault α → Guarded α
  | .ok value => pure value
  | .error fault => throw (.fault fault)

def sum (left right : Nat) : Guarded Nat :=
  if left + right ≤ maxIndex then pure (left + right) else throw (.sum left right)

def difference (left right : Nat) : Guarded Nat :=
  if right ≤ left then pure (left - right) else throw (.difference left right)

def requireSlot (index size : Nat) : Guarded Unit :=
  if index < size then pure () else throw (.slot index size)

def stop (segment : Segment α) : Guarded Nat := sum segment.first segment.size

def bisect (holds : Nat → Guarded Bool) (lo hi : Nat) : Guarded Nat :=
  if lo < hi then do
    let middle := lo + (hi - lo) / 2
    if ← holds middle then bisect holds lo middle else bisect holds (middle + 1) hi
  else pure lo
termination_by hi - lo

def endsAfter (list : SegmentList α) (index n : Nat) : Guarded Bool :=
  match list.segments[n]? with
  | some segment => do return index < (← stop segment)
  | none => throw (.slot n list.segments.size)

def place (list : SegmentList α) (index : Nat) : Guarded Nat :=
  bisect (endsAfter list index) 0 list.segments.size

def find? (list : SegmentList α) (index : Nat) : Guarded (Option (Segment α)) :=
  if index < list.size then do return list.segments[← place list index]? else pure none

def segmentAt (list : SegmentList α) (index : Nat) : Guarded (Segment α) := do
  ofFault (list.requireIndex index)
  let n ← place list index
  match list.segments[n]? with
  | some segment => return segment
  | none => throw (.slot n list.segments.size)

-- A walk may start behind the last segment, where it comes past none.
def visit (list : SegmentList α) (first last : Nat) : Guarded (List (Segment α)) := do
  ofFault (list.requireIndex first)
  ofFault (list.requireIndex last)
  if last < first then throw (.fault (.invertedBounds first last))
  let start ← place list first
  requireSlot start (list.segments.size + 1)
  return list.startingBy last start

def walkFrom (list : SegmentList α) (last : Nat) (block : σ → Segment α → Guarded σ) (n : Nat)
    (state : σ) : Guarded σ :=
  if bound : n < list.segments.size then
    let segment := list.segments[n]
    if segment.first ≤ last then do walkFrom list last block (n + 1) (← block state segment)
    else pure state
  else pure state
termination_by list.segments.size - n

def forEach (list : SegmentList α) (first last : Nat) (block : σ → Segment α → Guarded σ)
    (state : σ) : Guarded σ := do
  ofFault (list.requireIndex first)
  ofFault (list.requireIndex last)
  if last < first then throw (.fault (.invertedBounds first last))
  let start ← place list first
  requireSlot start (list.segments.size + 1)
  walkFrom list last block start state

def answer (factory : Nat → UInt64) (segment : Segment ItemGroup) (inner : Nat) : Guarded UInt64 :=
  if inner < segment.size then pure (factory inner) else throw (.item inner segment.size)

def keyIn (segment : Segment ItemGroup) (index : Nat) : Guarded ItemKey :=
  match segment.value.key with
  | some key => do return .authored (← answer key segment (← difference index segment.first))
  | none => pure (.positional index)

def keyAt (content : Content) (index : Nat) : Guarded ItemKey := do
  match ← find? content index with
  | some segment => keyIn segment index
  | none => return .positional index

def locate? (content : Content) (index : Nat) : Guarded (Option (Nat × ItemGroup)) := do
  match ← find? content index with
  | some segment => return some (← difference index segment.first, segment.value)
  | none => return none

def contentTypeAt (content : Content) (index : Nat) : Guarded (Option UInt64) := do
  match ← find? content index with
  | some segment =>
    let inner ← difference index segment.first
    match segment.value.contentType with
    | some contentType => return some (← answer contentType segment inner)
    | none => return none
  | none => return none

def enter (table : KeyTable) (key : ItemKey) (index : Nat) : Guarded KeyTable := do
  let entered ← ofNoted (table.enter key index)
  requireSlot (← difference index table.start) table.size
  return entered

def enterSegment (first last : Nat) (table : KeyTable) (segment : Segment ItemGroup) :
    Guarded KeyTable := do
  let final ← difference (← stop segment) 1
  (IndexRange.mk (max first segment.first) (min last final + 1)).indices.foldlM
    (fun table index => do enter table (← keyIn segment index) index) table

def build (range : IndexRange) (content : Content) : Guarded KeyTable := do
  let stop := min range.stop content.size
  if stop ≤ range.start then return .empty
  let last ← difference stop 1
  let room ← difference stop range.start
  let visited ← visit content range.start last
  visited.foldlM (enterSegment range.start last) ⟨range.start, Array.replicate room none, ∅⟩

def covered (table : KeyTable) : Guarded IndexRange := do
  return ⟨table.start, ← sum table.start table.size⟩

def followWindow (window : Window) (first : Nat) : Guarded (Window × Bool) := do
  if first = window.first then return (window, false)
  let range ← ofFault (window.shape.rangeAt first)
  if range = window.range then return ({ window with first }, false)
  ofNoted (Noted.note (.windowMoved window.range range first))
  return ({ window with first, range }, true)

def ofWindow (content : Content) (window : Window) : Guarded WindowedItems := do
  return ⟨content, window, ← build window.range content⟩

def follow (items : WindowedItems) (first : Nat) : Guarded (WindowedItems × Bool) := do
  let (window, moved) ← followWindow items.window first
  if moved then
    ofNoted (Noted.note (.tableRebuilt window.range items.count))
    return (← ofWindow items.content window, true)
  return ({ items with window }, false)

def withContent (items : WindowedItems) (content : Content) : Guarded WindowedItems :=
  ofWindow content items.window

def itemKeyAt (items : WindowedItems) (index : Nat) : Guarded ItemKey :=
  match items.table.keyAt? index with
  | some key => pure key
  | none => keyAt items.content index

def measured (viewport : Viewport) (first : Nat) (offset : Offset) (key : Option ItemKey) :
    Guarded Viewport := do
  let (window, _) ← followWindow viewport.window first
  return ⟨first, offset, key, window⟩

def reanchor (viewport : Viewport) (count : Nat) (find? : ItemKey → Option Nat) :
    Guarded Viewport := do
  let first := viewport.target count find?
  if first = viewport.first then return viewport
  ofNoted (Noted.note (.firstMoved viewport.first first))
  let (window, _) ← followWindow viewport.window first
  return { viewport with first, window }

end Guarded
end VirtualList
