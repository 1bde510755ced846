import VirtualList.Proofs.Description
import VirtualList.Proofs.ItemsHistory
import VirtualList.Proofs.ViewportHistory

-- The list is told where the viewport is, and no more.
namespace VirtualList

structure Pane where
  viewport : Viewport
  items : WindowedItems

namespace Pane

def ofContent (viewport : Viewport) (content : Content) : Noted Pane :=
  return ⟨viewport, ← WindowedItems.ofWindow content viewport.window⟩

inductive Event where
  | acted (action : Viewport.Action)
  -- the first visible item is looked up in the list that is shown
  | reanchored
  | followed
  | replaced (content : Content)
  | rebuilt (content : Content)

def Event.isSwap : Event → Bool
  | acted _ | reanchored | followed => false
  | replaced _ | rebuilt _ => true

def step (pane : Pane) : Event → Noted Pane
  | .acted action => return { pane with viewport := ← pane.viewport.step action }
  | .reanchored => return { pane with viewport := ← pane.viewport.reanchorIn pane.items.toSource }
  | .followed => return { pane with items := ← pane.items.step (.follow pane.viewport.first) }
  | .replaced content => return { pane with items := ← pane.items.step (.replace content) }
  | .rebuilt content => ofContent pane.viewport content

def run (pane : Pane) (events : List Event) : Noted Pane := events.foldlM step pane

@[simp] theorem run_cons (pane : Pane) (event : Event) (rest : List Event) :
    (pane.run (event :: rest)).value = ((pane.step event).value.run rest).value := by
  simp only [run, List.foldlM_cons, Noted.bind_value]

structure Matched (pane : Pane) : Prop where
  viewport : pane.viewport.Reached
  items : pane.items.Reached
  shape : pane.items.window.shape = pane.viewport.window.shape

def InStep (pane : Pane) : Prop := pane.items.window = pane.viewport.window

variable {pane : Pane}

theorem ofContent_matched {viewport : Viewport} (path : viewport.Reached) (content : Content) :
    Matched (ofContent viewport content).value :=
  ⟨path, .ofWindow content (Viewport.reached_window path), rfl⟩

theorem step_matched (matched : Matched pane) (event : Event) :
    Matched (pane.step event).value := by
  cases event with
  | acted action =>
    refine ⟨Viewport.step_reached matched.viewport action, matched.items, ?_⟩
    exact matched.shape.trans (Viewport.step_shape pane.viewport action).symm
  | reanchored =>
    refine ⟨.reanchored _ _ matched.viewport, matched.items, ?_⟩
    exact matched.shape.trans (Viewport.reanchor_shape pane.viewport _ _).symm
  | followed =>
    refine ⟨matched.viewport, .step (.follow pane.viewport.first) matched.items, ?_⟩
    have window := WindowedItems.follow_window pane.items pane.viewport.first
    calc (pane.items.step (.follow pane.viewport.first)).value.window.shape
        = (pane.items.window.follow pane.viewport.first).value.1.shape :=
          congrArg Window.shape window
      _ = pane.items.window.shape := Window.follow_shape ..
      _ = pane.viewport.window.shape := matched.shape
  | replaced content =>
    exact ⟨matched.viewport, .step (.replace content) matched.items, matched.shape⟩
  | rebuilt content => exact ofContent_matched matched.viewport content

theorem run_matched (matched : Matched pane) (events : List Event) :
    Matched (pane.run events).value := by
  induction events generalizing pane with
  | nil => exact matched
  | cons event rest ih =>
    rw [run_cons]
    exact ih (step_matched matched event)

theorem followed_inStep (matched : Matched pane) : InStep (pane.step .followed).value := by
  have next := step_matched matched .followed
  have place : (pane.step .followed).value.items.window.first = pane.viewport.first := by
    have window := WindowedItems.follow_window pane.items pane.viewport.first
    exact (congrArg Window.first window).trans (Window.follow_first ..)
  obtain ⟨shape, nonempty, centred⟩ := Viewport.reached_centred matched.viewport
  have own : pane.viewport.window.first = pane.viewport.first := congrArg Window.first centred
  exact Window.eq_of_reached (WindowedItems.reached_window next.items)
    (Viewport.reached_window matched.viewport) next.shape (place.trans own.symm)

theorem swap_inStep (inStep : InStep pane) {event : Event} (swap : event.isSwap = true) :
    InStep (pane.step event).value := by
  cases event with
  | acted action => cases swap
  | reanchored => cases swap
  | followed => cases swap
  | replaced content => exact inStep
  | rebuilt content => rfl

theorem swaps_inStep (inStep : InStep pane) {swaps : List Event}
    (quiet : ∀ event ∈ swaps, event.isSwap = true) : InStep (pane.run swaps).value := by
  induction swaps generalizing pane with
  | nil => exact inStep
  | cons event rest ih =>
    rw [run_cons]
    refine ih (swap_inStep inStep (quiet event List.mem_cons_self)) ?_
    intro later member
    exact quiet later (List.mem_cons_of_mem _ member)

theorem run_followed_inStep (matched : Matched pane) (events : List Event) {swaps : List Event}
    (quiet : ∀ event ∈ swaps, event.isSwap = true) :
    InStep (pane.run (events ++ .followed :: swaps)).value := by
  rw [run, List.foldlM_append, Noted.bind_value]
  exact swaps_inStep (followed_inStep (run_matched matched events)) quiet

-- A window holds the item it is made around, unless there is no room for that item in a list.
theorem first_mem_holders (matched : Matched pane) (inStep : InStep pane)
    (bound : pane.viewport.first < pane.items.count) :
    pane.viewport.first ∈
      pane.items.holders (pane.items.content.keyAt pane.viewport.first) := by
  have room := Nat.lt_of_lt_of_le bound pane.items.content.fits
  have seen := Viewport.first_mem_window matched.viewport room
  rw [← inStep] at seen
  exact ⟨seen, bound, WindowedItems.keyAt_reached matched.items _⟩

theorem follow_keeps_anchor {viewport : Viewport} (path : viewport.Reached) (content : Content)
    (events : List Event) {swaps : List Event} (quiet : ∀ event ∈ swaps, event.isSwap = true) :
    let pane := ((ofContent viewport content).value.run (events ++ .followed :: swaps)).value
    pane.items.window = pane.viewport.window ∧
    (pane.viewport.first < pane.items.count →
      ∃ key, key = pane.items.content.keyAt pane.viewport.first ∧
        pane.items.directory.keyAt? pane.viewport.first = some key ∧
        ∃ index, pane.viewport.first ≤ index ∧ pane.items.indexOf? key = some index ∧
          ((∀ other ∈ pane.items.window.range, other < pane.items.count →
              pane.items.content.keyAt other = key → other = pane.viewport.first) →
            index = pane.viewport.first)) := by
  intro pane
  have started : Matched (ofContent viewport content).value := ofContent_matched path content
  have matched : Matched pane := run_matched started _
  have inStep : InStep pane := run_followed_inStep started events quiet
  refine ⟨inStep, ?_⟩
  intro bound
  have member := first_mem_holders matched inStep bound
  obtain ⟨index, later, found⟩ := WindowedItems.exists_indexOf? matched.items member
  refine ⟨_, rfl, ?_, index, later, found, ?_⟩
  · rw [WindowedItems.directory_keyAt? matched.items, if_pos ⟨member.1, bound⟩]
  · intro alone
    obtain ⟨seen, stored, same⟩ := ((WindowedItems.indexOf?_eq_some_iff matched.items).mp found).1
    rw [WindowedItems.keyAt_reached matched.items] at same
    exact alone index seen stored same

theorem follow_keeps_anchor_once :
    ∃ content, Content.ofEntries [.keyed #[7, 8, 9, 5]] = .ok content ∧ (default : Viewport).Reached ∧
      (∀ event ∈ [Event.replaced content], event.isSwap = true) ∧
      let events : List Event := [.acted (.measured 40 ⟨9⟩ (some (.authored 9))), .rebuilt .empty,
        .reanchored, .acted (.jumped 2 .zero)]
      let pane := ((ofContent default .empty).value.run
        (events ++ .followed :: [.replaced content])).value
      pane.items.window = pane.viewport.window ∧ pane.viewport.first = 2 ∧
        pane.items.directory.keyAt? 2 = some (.authored 9) ∧
        pane.items.indexOf? (.authored 9) = some 2 := by
  obtain ⟨content, built⟩ := Content.exists_ofEntries
    (show Entry.total [.keyed #[7, 8, 9, 5]] ≤ maxIndex by decide)
  have size : content.size = 4 := Content.size_ofEntries built
  have keys (index : Nat) : content.keyAt index = Entry.keyAt [.keyed #[7, 8, 9, 5]] index :=
    Content.keyAt_ofEntries built index
  have quiet : ∀ event ∈ [Event.replaced content], event.isSwap = true := by
    intro event member
    rw [List.mem_singleton.mp member]
    rfl
  refine ⟨content, built, .standard, quiet, ?_⟩
  intro events pane
  obtain ⟨same, known⟩ := follow_keeps_anchor .standard .empty events quiet
  have bound : pane.viewport.first < pane.items.count := by
    rw [show pane.items.count = 4 from size]
    exact (show 2 < 4 by decide)
  obtain ⟨key, stands, seen, index, _, found, alone⟩ := known bound
  have nine : key = .authored 9 := stands.trans ((keys 2).trans (by decide))
  have unique : ∀ other < 4, Entry.keyAt [.keyed #[7, 8, 9, 5]] other = .authored 9 → other = 2 := by
    decide
  have place : index = 2 := by
    apply alone
    intro other _ stored shared
    rw [show pane.items.count = 4 from size] at stored
    exact unique other stored ((keys other).symm.trans (shared.trans nine))
  subst nine place
  exact ⟨same, rfl, seen, found⟩

end Pane
end VirtualList
