import VirtualList.Content
import VirtualList.Notice
import Std.Data.HashMap

namespace VirtualList

structure KeyTable where
  start : Nat
  slots : Array (Option ItemKey)
  positions : Std.HashMap ItemKey Nat

namespace KeyTable

def blank (range : IndexRange) : KeyTable := ⟨range.start, Array.replicate range.size none, ∅⟩

def empty : KeyTable := blank .nowhere

instance : Inhabited KeyTable := ⟨empty⟩

def size (table : KeyTable) : Nat := table.slots.size

def isEmpty (table : KeyTable) : Bool := table.slots.isEmpty

def covered (table : KeyTable) : IndexRange := ⟨table.start, table.start + table.size⟩

def keyAt? (table : KeyTable) (index : Nat) : Option ItemKey :=
  if table.start ≤ index then table.slots[index - table.start]?.join else none

def indexOf? (table : KeyTable) (key : ItemKey) : Option Nat := table.positions[key]?

-- A former position of the key is reported and replaced, but keeps the key in its slot.
def enter (table : KeyTable) (key : ItemKey) (index : Nat) : Noted KeyTable :=
  let shared :=
    match table.indexOf? key with
    | some former => [.keyShared key former index]
    | none => []
  let slots := table.slots.setIfInBounds (index - table.start) (some key)
  ⟨⟨table.start, slots, table.positions.insert key index⟩, shared⟩

@[simp] theorem enter_start (table : KeyTable) (key : ItemKey) (index : Nat) :
    (table.enter key index).value.start = table.start := rfl

@[simp] theorem enter_size (table : KeyTable) (key : ItemKey) (index : Nat) :
    (table.enter key index).value.size = table.size :=
  Array.size_setIfInBounds

@[simp] theorem keyAt?_blank (range : IndexRange) (index : Nat) :
    (blank range).keyAt? index = none := by
  simp only [keyAt?, blank, Array.getElem?_replicate]
  split
  · split <;> rfl
  · rfl

@[simp] theorem indexOf?_blank (range : IndexRange) (key : ItemKey) :
    (blank range).indexOf? key = none :=
  Std.HashMap.getElem?_empty

theorem keyAt?_enter {table : KeyTable} {index : Nat} (room : index ∈ table.covered)
    (key : ItemKey) (asked : Nat) :
    (table.enter key index).value.keyAt? asked =
      if asked = index then some key else table.keyAt? asked := by
  simp only [IndexRange.mem_iff, covered, size] at room
  by_cases after : table.start ≤ asked
  · have slot : index - table.start = asked - table.start ↔ asked = index := by omega
    simp only [keyAt?, enter, after, if_true, Array.getElem?_setIfInBounds, slot]
    split
    · rw [if_pos (by omega)]
      rfl
    · rfl
  · have different : asked ≠ index := by omega
    simp only [keyAt?, enter, after, if_false, different]

theorem indexOf?_enter (table : KeyTable) (key asked : ItemKey) (index : Nat) :
    (table.enter key index).value.indexOf? asked =
      if key = asked then some index else table.indexOf? asked := by
  simp [enter, indexOf?, Std.HashMap.getElem?_insert]

def cells (range : IndexRange) (content : Content) : List (Segment ItemGroup × Nat) :=
  let held := range.clip content.size
  if held.isEmpty then []
  else
    (content.overlapping held.start (held.stop - 1)).flatMap fun segment =>
      (segment.clip held.start (held.stop - 1)).indices.map (segment, ·)

-- A range that covers no item has the empty table, wherever it lies.
def build (range : IndexRange) (content : Content) : Noted KeyTable :=
  if (range.clip content.size).isEmpty then pure empty
  else
    (cells range content).foldlM (fun table (segment, index) =>
      table.enter (segment.keyAt index) index) (blank (range.clip content.size))

end KeyTable

inductive KeyDirectory where
  | blank
  | table (keys : KeyTable)
  deriving Inhabited

namespace KeyDirectory

def build (range : IndexRange) (content : Content) : Noted KeyDirectory :=
  return .table (← KeyTable.build range content)

def indexOf? : KeyDirectory → ItemKey → Option Nat
  | blank, _ => none
  | table keys, key => keys.indexOf? key

def keyAt? : KeyDirectory → Nat → Option ItemKey
  | blank, _ => none
  | table keys, index => keys.keyAt? index

def covered : KeyDirectory → IndexRange
  | blank => .nowhere
  | table keys => keys.covered

end KeyDirectory
end VirtualList
