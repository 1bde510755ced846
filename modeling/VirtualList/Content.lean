import VirtualList.ItemKey
import VirtualList.SegmentList

namespace VirtualList

structure ItemGroup where
  key : Option (Nat → UInt64) := none
  contentType : Option (Nat → UInt64) := none

abbrev Content := SegmentList ItemGroup

def Segment.keyAt (segment : Segment ItemGroup) (index : Nat) : ItemKey :=
  match segment.value.key with
  | some key => .authored (key (index - segment.first))
  | none => .positional index

namespace Content

def locate? (content : Content) (index : Nat) : Option (Nat × ItemGroup) :=
  (content.find? index).map fun segment => (index - segment.first, segment.value)

-- Past the end too: a caller may ask about an item that has just gone.
def keyAt (content : Content) (index : Nat) : ItemKey :=
  match content.find? index with
  | some segment => segment.keyAt index
  | none => .positional index

def contentTypeAt (content : Content) (index : Nat) : Option UInt64 := do
  let (inner, group) ← content.locate? index
  let contentType ← group.contentType
  return contentType inner

def ofGroups (groups : List (Nat × ItemGroup)) : Except Fault Content :=
  groups.foldlM (fun content (count, group) => content.append count group) .empty

end Content

inductive Entry where
  | item (key contentType : Option UInt64)
  | items (count : Nat) (key contentType : Option (Nat → UInt64))
  | keyed (ids : Array UInt64)

namespace Entry

def count : Entry → Nat
  | item .. => 1
  | items count .. => count
  | keyed ids => ids.size

def group : Entry → ItemGroup
  | item key contentType =>
    { key := key.map fun id _ => id, contentType := contentType.map fun label _ => label }
  | items _ key contentType => { key, contentType }
  | keyed ids => { key := some fun inner => ids.getD inner 0 }

end Entry

namespace Content

def add (content : Content) (entry : Entry) : Except Fault Content :=
  if entry.count = 0 then .ok content else content.append entry.count entry.group

def ofEntries (entries : List Entry) : Except Fault Content := entries.foldlM add .empty

theorem keyAt_of_find? {content : Content} {index : Nat} {segment : Segment ItemGroup}
    (found : content.find? index = some segment) : content.keyAt index = segment.keyAt index := by
  simp [keyAt, found]

theorem keyAt_of_size_le {content : Content} {index : Nat} (beyond : content.size ≤ index) :
    content.keyAt index = .positional index := by
  simp [keyAt, SegmentList.find?_eq_none_iff.mpr beyond]

end Content
end VirtualList
