import VirtualList.Proofs.TableLookup
import VirtualList.Proofs.WindowHistory
import VirtualList.WindowedItems

-- A list of items never shows its past. However window and content changed in turns, it is the
-- list that would be made from the present content around the present first visible item.
namespace VirtualList
namespace WindowedItems

inductive Command where
  | follow (first : Nat)
  | replace (content : Content)

namespace Command

def first? : Command → Option Nat
  | follow first => some first
  | replace _ => none

def content? : Command → Option Content
  | follow _ => none
  | replace content => some content

end Command

def step (items : WindowedItems) : Command → Noted WindowedItems
  | .follow first => return (← items.follow first).1
  | .replace content => items.withContent content

def run (items : WindowedItems) (commands : List Command) : Noted WindowedItems :=
  commands.foldlM step items

def lastFirst (first : Nat) (commands : List Command) : Nat :=
  (commands.filterMap Command.first?).getLastD first

def lastContent (content : Content) (commands : List Command) : Content :=
  (commands.filterMap Command.content?).getLastD content

def fresh (content : Content) (shape : WindowShape) (nonempty : 0 < shape.bucket) (first : Nat) :
    WindowedItems :=
  (ofWindow content (.ofShape shape nonempty first)).value

variable {shape : WindowShape} {nonempty : 0 < shape.bucket}

theorem fresh_table (content : Content) (first : Nat) :
    (fresh content shape nonempty first).table =
      (KeyTable.build (shape.around first) content).value := rfl

theorem follow_value (items : WindowedItems) (first : Nat) :
    (items.follow first).value =
      if (items.window.follow first).value.2 = true then
        ((ofWindow items.content (items.window.follow first).value.1).value, true)
      else ({ items with window := (items.window.follow first).value.1 }, false) := by
  unfold follow
  rw [Noted.bind_value]
  cases (items.window.follow first).value with
  | mk window moved =>
    cases moved with
    | false => rfl
    | true => rfl

theorem follow_window (items : WindowedItems) (first : Nat) :
    (items.follow first).value.1.window = (items.window.follow first).value.1 := by
  rw [follow_value]
  split
  · rfl
  · rfl

theorem follow_moved (items : WindowedItems) (first : Nat) :
    (items.follow first).value.2 = (items.window.follow first).value.2 := by
  rw [follow_value]
  split
  · rename_i moved
    exact moved.symm
  · rename_i kept
    exact (Bool.eq_false_of_not_eq_true kept).symm

-- Where the range stays the same, the table that is kept is the one that would be built.
theorem follow_fresh (content : Content) (first next : Nat) :
    ((fresh content shape nonempty first).follow next).value =
      (fresh content shape nonempty next, decide (shape.around next ≠ shape.around first)) := by
  have window : ((fresh content shape nonempty first).window.follow next).value =
      (.ofShape shape nonempty next, decide (shape.around next ≠ shape.around first)) :=
    Window.follow_ofShape shape nonempty first next
  rw [follow_value, window]
  by_cases kept : shape.around next = shape.around first
  · have table : (fresh content shape nonempty first).table =
        (fresh content shape nonempty next).table := by
      rw [fresh_table, fresh_table, kept]
    simp only [kept, ne_eq, not_true_eq_false, decide_false, table]
    rfl
  · simp only [kept, ne_eq, not_false_eq_true, decide_true, if_true]
    rfl

theorem step_fresh (content : Content) (first : Nat) (command : Command) :
    ((fresh content shape nonempty first).step command).value =
      fresh (command.content?.getD content) shape nonempty (command.first?.getD first) := by
  cases command with
  | follow next =>
    rw [step, Noted.bind_value, follow_fresh]
    rfl
  | replace content => rfl

theorem lastFirst_cons (first : Nat) (command : Command) (rest : List Command) :
    lastFirst first (command :: rest) = lastFirst (command.first?.getD first) rest := by
  cases command with
  | follow next => exact List.getLastD_cons ..
  | replace content => rfl

theorem lastContent_cons (content : Content) (command : Command) (rest : List Command) :
    lastContent content (command :: rest) = lastContent (command.content?.getD content) rest := by
  cases command with
  | follow next => rfl
  | replace content => exact List.getLastD_cons ..

theorem run_fresh (content : Content) (first : Nat) (commands : List Command) :
    ((fresh content shape nonempty first).run commands).value =
      fresh (lastContent content commands) shape nonempty (lastFirst first commands) := by
  induction commands generalizing content first with
  | nil => rfl
  | cons command rest ih =>
    rw [run, List.foldlM_cons, Noted.bind_value, step_fresh, lastFirst_cons, lastContent_cons]
    exact ih _ _

theorem keyAt_fresh (content : Content) (first index : Nat) :
    (fresh content shape nonempty first).keyAt index = content.keyAt index := by
  rw [keyAt, fresh_table, (KeyTable.build_knows _ _).keys]
  split
  · rfl
  · rfl

theorem start_eq_ok (content : Content) (nonempty : 0 < shape.bucket) (first : Nat) :
    start content shape first = .ok (ofWindow content (.ofShape shape nonempty first)) := by
  rw [start, Window.start_eq_ok_iff.mpr ⟨nonempty, rfl⟩]
  rfl

inductive Reached : WindowedItems → Prop where
  | ofWindow {window : Window} (content : Content) :
      window.Reached → Reached (ofWindow content window).value
  | step {items : WindowedItems} (command : Command) :
      Reached items → Reached (items.step command).value

theorem reached_fresh {items : WindowedItems} (path : Reached items) :
    ∃ (content : Content) (shape : WindowShape) (nonempty : 0 < shape.bucket) (first : Nat),
      items = fresh content shape nonempty first := by
  induction path with
  | @ofWindow window content path =>
    refine ⟨content, window.shape, window.nonempty, window.first, ?_⟩
    rw [fresh, ← Window.reached_ofShape path]
  | @step items command path ih =>
    obtain ⟨content, shape, nonempty, first, rfl⟩ := ih
    exact ⟨_, shape, nonempty, _, step_fresh content first command⟩

theorem keyAt_reached {items : WindowedItems} (path : Reached items) (index : Nat) :
    items.keyAt index = items.content.keyAt index := by
  obtain ⟨content, shape, nonempty, first, rfl⟩ := reached_fresh path
  exact keyAt_fresh content first index

-- The items that a look-up by key can find.
def holders (items : WindowedItems) (key : ItemKey) : Set Nat :=
  {held | held ∈ items.window.range ∧ held < items.count ∧ items.keyAt held = key}

theorem holders_fresh (content : Content) (first : Nat) (key : ItemKey) :
    (fresh content shape nonempty first).holders key =
      {held | held ∈ (KeyTable.build (shape.around first) content).value.covered ∧
        content.keyAt held = key} := by
  ext held
  simp only [holders, Set.mem_ofPred_eq, keyAt_fresh, KeyTable.mem_build_covered, and_assoc]
  rfl

theorem indexOf?_eq_some_iff {items : WindowedItems} (path : Reached items) {key : ItemKey}
    {index : Nat} :
    items.indexOf? key = some index ↔ IsGreatest (items.holders key) index := by
  obtain ⟨content, shape, nonempty, first, rfl⟩ := reached_fresh path
  rw [holders_fresh]
  exact (KeyTable.build_knows (shape.around first) content).last key index

theorem indexOf?_eq_none_iff {items : WindowedItems} (path : Reached items) {key : ItemKey} :
    items.indexOf? key = none ↔ ∀ held, held ∉ items.holders key := by
  obtain ⟨content, shape, nonempty, first, rfl⟩ := reached_fresh path
  simp only [holders_fresh, Set.mem_ofPred_eq, not_and]
  exact (KeyTable.build_knows (shape.around first) content).missing key

theorem exists_indexOf? {items : WindowedItems} (path : Reached items) {key : ItemKey} {held : Nat}
    (member : held ∈ items.holders key) :
    ∃ last, held ≤ last ∧ items.indexOf? key = some last := by
  cases found : items.indexOf? key with
  | none => exact absurd member ((indexOf?_eq_none_iff path).mp found held)
  | some last => exact ⟨last, ((indexOf?_eq_some_iff path).mp found).2 member, rfl⟩

theorem directory_keyAt? {items : WindowedItems} (path : Reached items) (index : Nat) :
    items.directory.keyAt? index =
      if index ∈ items.window.range ∧ index < items.count then some (items.content.keyAt index)
      else none := by
  obtain ⟨content, shape, nonempty, first, rfl⟩ := reached_fresh path
  have known := (KeyTable.build_knows (shape.around first) content).keys index
  simp only [KeyTable.mem_build_covered] at known
  exact known

theorem mem_directory_covered {items : WindowedItems} (path : Reached items) {index : Nat} :
    index ∈ items.directory.covered ↔ index ∈ items.window.range ∧ index < items.count := by
  obtain ⟨content, shape, nonempty, first, rfl⟩ := reached_fresh path
  exact KeyTable.mem_build_covered

theorem holders_eq {items : WindowedItems} (path : Reached items) (key : ItemKey) :
    items.holders key =
      {held | held ∈ items.directory.covered ∧ items.content.keyAt held = key} := by
  ext held
  simp only [holders, Set.mem_ofPred_eq, keyAt_reached path, mem_directory_covered path, and_assoc]

theorem reached_window {items : WindowedItems} (path : Reached items) : items.window.Reached := by
  obtain ⟨content, shape, nonempty, first, rfl⟩ := reached_fresh path
  exact Window.ofShape_reached shape nonempty first

-- Equal lists answer every question alike, by position and by key, in the window and outside.
theorem run_exact (content : Content) (shape : WindowShape) (nonempty : 0 < shape.bucket)
    (first : Nat) (commands : List Command) :
    ∃ initial last items, start content shape first = .ok initial ∧
      start (lastContent content commands) shape (lastFirst first commands) = .ok last ∧
      items = (initial.value.run commands).value ∧ items = last.value ∧
      (∀ index, items.keyAt index = (lastContent content commands).keyAt index) ∧
      ∀ next, (items.follow next).value.2 = true ↔
        (items.follow next).value.1.window.range ≠ items.window.range := by
  refine ⟨_, _, _, start_eq_ok content nonempty first, start_eq_ok _ nonempty _,
    (run_fresh content first commands).symm, rfl, keyAt_fresh _ _, ?_⟩
  intro next
  rw [follow_fresh, decide_eq_true_iff]
  rfl

theorem run_exact_scrolled :
    ∃ content : Content, Content.ofEntries [.items 200 (some Nat.toUInt64) none] = .ok content ∧
      0 < (WindowShape.mk 10 5).bucket ∧
      ∃ initial last items, start .empty ⟨10, 5⟩ 0 = .ok initial ∧
        start content ⟨10, 5⟩ 42 = .ok last ∧
        items = (initial.value.run [.follow 35, .replace content, .follow 42]).value ∧
        items = last.value ∧ (∀ index, items.keyAt index = content.keyAt index) ∧
        ∀ next, (items.follow next).value.2 = true ↔
          (items.follow next).value.1.window.range ≠ items.window.range := by
  refine ⟨_, rfl, by decide, ?_⟩
  exact run_exact .empty ⟨10, 5⟩ (by decide) 0 [.follow 35, .replace _, .follow 42]

end WindowedItems
end VirtualList
