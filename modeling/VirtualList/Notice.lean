import VirtualList.ItemKey

namespace VirtualList

inductive Severity where
  | trace
  | debug
  | warn
  deriving DecidableEq, Repr

def Severity.label : Severity → String
  | trace => "TRACE"
  | debug => "DEBUG"
  | warn => "WARN"

inductive Notice where
  -- `key` was held by item `former` of a table and is now held by item `latter`
  | keyShared (key : ItemKey) (former latter : Nat)
  | windowMoved (former latter : IndexRange) (first : Nat)
  | tableRebuilt (range : IndexRange) (count : Nat)
  | firstMoved (former latter : Nat)
  deriving DecidableEq, Repr

namespace Notice

def severity : Notice → Severity
  | keyShared .. => .warn
  | windowMoved .. => .trace
  | tableRebuilt .. | firstMoved .. => .debug

def text : Notice → String
  | keyShared key former latter =>
    s!"lazy layout key {key.text} used by both index {former} and {latter}; keys must be unique"
  | windowMoved former latter first =>
    s!"nearest range {former.text} -> {latter.text} (first visible {first})"
  | tableRebuilt range count =>
    s!"LazyList: rebuilding key index map for {range.text} ({count} items)"
  | firstMoved former latter => s!"LazyList: first visible item moved {former} -> {latter}"

end Notice

structure Noted (α : Type u) where
  value : α
  notices : List Notice

namespace Noted

def quiet (value : α) : Noted α := ⟨value, []⟩

def note (notice : Notice) : Noted Unit := ⟨(), [notice]⟩

@[inline] def andThen (noted : Noted α) (next : α → Noted β) : Noted β :=
  let ⟨value, notices⟩ := noted
  let ⟨result, more⟩ := next value
  ⟨result, notices ++ more⟩

instance : Monad Noted where
  pure := quiet
  bind := andThen

@[simp] theorem pure_value (value : α) : (pure value : Noted α).value = value := rfl

@[simp] theorem pure_notices (value : α) : (pure value : Noted α).notices = [] := rfl

@[simp] theorem note_notices (notice : Notice) : (note notice).notices = [notice] := rfl

@[simp] theorem bind_value (noted : Noted α) (next : α → Noted β) :
    (noted >>= next).value = (next noted.value).value := rfl

@[simp] theorem bind_notices (noted : Noted α) (next : α → Noted β) :
    (noted >>= next).notices = noted.notices ++ (next noted.value).notices := rfl

@[simp] theorem map_value (next : α → β) (noted : Noted α) :
    (next <$> noted).value = next noted.value := rfl

@[simp] theorem map_notices (next : α → β) (noted : Noted α) :
    (next <$> noted).notices = noted.notices :=
  List.append_nil noted.notices

instance : LawfulMonad Noted := by
  refine .mk' Noted ?_ (fun _ _ => rfl) ?_
  · intro _ noted
    exact congrArg (mk noted.value) (List.append_nil noted.notices)
  · intro _ _ _ noted next last
    exact congrArg (mk _) (List.append_assoc noted.notices ..)

end Noted
end VirtualList
