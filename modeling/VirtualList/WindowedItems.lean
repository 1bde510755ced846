import VirtualList.ItemSource
import VirtualList.KeyTable
import VirtualList.Window

namespace VirtualList

-- The table is rebuilt exactly when the content or the window changes.
structure WindowedItems where
  content : Content
  window : Window
  table : KeyTable

namespace WindowedItems

def ofWindow (content : Content) (window : Window) : Noted WindowedItems := do
  let table ← KeyTable.build window.range content
  return ⟨content, window, table⟩

def start (content : Content) (shape : WindowShape) (first : Nat) :
    Except Fault (Noted WindowedItems) := do
  let window ← Window.start shape first
  return ofWindow content window

def count (items : WindowedItems) : Nat := items.content.size

def directory (items : WindowedItems) : KeyDirectory := .table items.table

def follow (items : WindowedItems) (first : Nat) : Noted (WindowedItems × Bool) := do
  let (window, moved) ← items.window.follow first
  if moved then
    Noted.note (.tableRebuilt window.range items.count)
    return (← ofWindow items.content window, true)
  else return ({ items with window }, false)

def withContent (items : WindowedItems) (content : Content) : Noted WindowedItems :=
  ofWindow content items.window

def keyAt (items : WindowedItems) (index : Nat) : ItemKey :=
  (items.table.keyAt? index).getD (items.content.keyAt index)

def contentTypeAt (items : WindowedItems) (index : Nat) : Option UInt64 :=
  items.content.contentTypeAt index

def indexOf? (items : WindowedItems) (key : ItemKey) : Option Nat := items.table.indexOf? key

def toSource (items : WindowedItems) : ItemSource where
  count := items.count
  keyAt := items.keyAt
  contentTypeAt := items.contentTypeAt
  indexOf? := items.indexOf?

end WindowedItems
end VirtualList
