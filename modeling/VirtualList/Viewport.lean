import VirtualList.ItemSource
import VirtualList.Offset
import VirtualList.Window

namespace VirtualList

structure Viewport where
  first : Nat
  offset : Offset
  -- key of the first visible item, if it was seen since the last jump
  anchor : Option ItemKey
  window : Window

namespace Viewport

def ofWindow (window : Window) (offset : Offset) : Viewport := ⟨window.first, offset, none, window⟩

def start (shape : WindowShape) (first : Nat) (offset : Offset) : Except Fault Viewport := do
  let window ← Window.start shape first
  return ofWindow window offset

instance : Inhabited Viewport := ⟨ofWindow default .zero⟩

def measured (viewport : Viewport) (first : Nat) (offset : Offset) (key : Option ItemKey) :
    Noted Viewport := do
  let (window, _) ← viewport.window.follow first
  return ⟨first, offset, key, window⟩

def jumpTo (viewport : Viewport) (first : Nat) (offset : Offset) : Noted Viewport :=
  viewport.measured first offset none

-- An item that is not found leaves the place as it is, as far as the list reaches.
def target (viewport : Viewport) (count : Nat) (find? : ItemKey → Option Nat) : Nat :=
  (viewport.anchor.bind find?).getD (min viewport.first (count - 1))

def reanchor (viewport : Viewport) (count : Nat) (find? : ItemKey → Option Nat) :
    Noted Viewport :=
  let first := viewport.target count find?
  if first = viewport.first then pure viewport
  else do
    Noted.note (.firstMoved viewport.first first)
    let (window, _) ← viewport.window.follow first
    return { viewport with first, window }

def reanchorIn (viewport : Viewport) (source : ItemSource) : Noted Viewport :=
  viewport.reanchor source.count source.indexOf?

@[simp] theorem measured_anchor (viewport : Viewport) (first : Nat) (offset : Offset)
    (key : Option ItemKey) : (viewport.measured first offset key).value.anchor = key := rfl

theorem reanchor_of_target_eq {viewport : Viewport} {count : Nat} {find? : ItemKey → Option Nat}
    (same : viewport.target count find? = viewport.first) :
    viewport.reanchor count find? = pure viewport := by
  simp only [reanchor, if_pos same]

theorem reanchor_of_target_ne {viewport : Viewport} {count : Nat} {find? : ItemKey → Option Nat}
    (moved : viewport.target count find? ≠ viewport.first) :
    (viewport.reanchor count find?).value =
      { viewport with
        first := viewport.target count find?
        window := (viewport.window.follow (viewport.target count find?)).value.1 } := by
  simp only [reanchor, if_neg moved]
  rfl

theorem reanchor_first (viewport : Viewport) (count : Nat) (find? : ItemKey → Option Nat) :
    (viewport.reanchor count find?).value.first = viewport.target count find? := by
  by_cases same : viewport.target count find? = viewport.first
  · rw [reanchor_of_target_eq same]
    exact same.symm
  · rw [reanchor_of_target_ne same]

theorem reanchor_frame (viewport : Viewport) (count : Nat) (find? : ItemKey → Option Nat) :
    (viewport.reanchor count find?).value.offset = viewport.offset ∧
      (viewport.reanchor count find?).value.anchor = viewport.anchor := by
  by_cases same : viewport.target count find? = viewport.first
  · rw [reanchor_of_target_eq same]
    exact ⟨rfl, rfl⟩
  · rw [reanchor_of_target_ne same]
    exact ⟨rfl, rfl⟩

end Viewport
end VirtualList
