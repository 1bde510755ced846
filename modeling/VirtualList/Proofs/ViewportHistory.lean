import VirtualList.Proofs.WindowHistory
import VirtualList.Viewport

namespace VirtualList
namespace Viewport

variable {shape : WindowShape} {nonempty : 0 < shape.bucket} {viewport : Viewport}

def Centred (shape : WindowShape) (nonempty : 0 < shape.bucket) (viewport : Viewport) : Prop :=
  viewport.window = .ofShape shape nonempty viewport.first

theorem follow_of_centred (centred : Centred shape nonempty viewport) (first : Nat) :
    (viewport.window.follow first).value.1 = .ofShape shape nonempty first := by
  rw [centred, Window.follow_ofShape]

theorem measured_value (centred : Centred shape nonempty viewport) (first : Nat)
    (offset : Offset) (key : Option ItemKey) :
    (viewport.measured first offset key).value =
      ⟨first, offset, key, .ofShape shape nonempty first⟩ :=
  congrArg (Viewport.mk first offset key) (follow_of_centred centred first)

theorem reanchor_value (centred : Centred shape nonempty viewport) (count : Nat)
    (find? : ItemKey → Option Nat) :
    (viewport.reanchor count find?).value =
      ⟨viewport.target count find?, viewport.offset, viewport.anchor,
        .ofShape shape nonempty (viewport.target count find?)⟩ := by
  by_cases same : viewport.target count find? = viewport.first
  · rw [reanchor_of_target_eq same, same]
    exact congrArg (Viewport.mk viewport.first viewport.offset viewport.anchor) centred
  · rw [reanchor_of_target_ne same, follow_of_centred centred]

theorem measured_centred (centred : Centred shape nonempty viewport) (first : Nat)
    (offset : Offset) (key : Option ItemKey) :
    Centred shape nonempty (viewport.measured first offset key).value :=
  follow_of_centred centred first

theorem reanchor_centred (centred : Centred shape nonempty viewport) (count : Nat)
    (find? : ItemKey → Option Nat) :
    Centred shape nonempty (viewport.reanchor count find?).value := by
  rw [Centred, reanchor_value centred]

theorem measured_shape (viewport : Viewport) (first : Nat) (offset : Offset)
    (key : Option ItemKey) :
    (viewport.measured first offset key).value.window.shape = viewport.window.shape :=
  Window.follow_shape viewport.window first

theorem reanchor_shape (viewport : Viewport) (count : Nat) (find? : ItemKey → Option Nat) :
    (viewport.reanchor count find?).value.window.shape = viewport.window.shape := by
  by_cases same : viewport.target count find? = viewport.first
  · rw [reanchor_of_target_eq same]
    rfl
  · rw [reanchor_of_target_ne same]
    exact Window.follow_shape viewport.window _

-- A search in a source is one of the functions that `reanchored` takes; it may as well lie.
inductive Reached : Viewport → Prop where
  | start {shape : WindowShape} {first : Nat} {offset : Offset} {viewport : Viewport} :
      start shape first offset = .ok viewport → Reached viewport
  | standard : Reached default
  | measured {viewport : Viewport} (first : Nat) (offset : Offset) (key : Option ItemKey) :
      Reached viewport → Reached (viewport.measured first offset key).value
  | jumped {viewport : Viewport} (first : Nat) (offset : Offset) :
      Reached viewport → Reached (viewport.jumpTo first offset).value
  | reanchored {viewport : Viewport} (count : Nat) (find? : ItemKey → Option Nat) :
      Reached viewport → Reached (viewport.reanchor count find?).value

theorem start_centred {first : Nat} {offset : Offset}
    (accepted : start shape first offset = .ok viewport) :
    ∃ nonempty, Centred shape nonempty viewport := by
  unfold start at accepted
  cases made : Window.start shape first with
  | error fault =>
    rw [made] at accepted
    cases accepted
  | ok window =>
    rw [made] at accepted
    cases accepted
    obtain ⟨nonempty, rfl⟩ := Window.start_eq_ok_iff.mp made
    exact ⟨nonempty, rfl⟩

theorem reached_centred (path : Reached viewport) :
    ∃ (shape : WindowShape) (nonempty : 0 < shape.bucket), Centred shape nonempty viewport := by
  induction path with
  | start accepted => exact ⟨_, start_centred accepted⟩
  | standard => exact ⟨.list, by decide, rfl⟩
  | measured first offset key path ih =>
    obtain ⟨shape, nonempty, centred⟩ := ih
    exact ⟨shape, nonempty, measured_centred centred first offset key⟩
  | jumped first offset path ih =>
    obtain ⟨shape, nonempty, centred⟩ := ih
    exact ⟨shape, nonempty, measured_centred centred first offset none⟩
  | reanchored count find? path ih =>
    obtain ⟨shape, nonempty, centred⟩ := ih
    exact ⟨shape, nonempty, reanchor_centred centred count find?⟩

theorem reached_own (path : Reached viewport) :
    Centred viewport.window.shape viewport.window.nonempty viewport := by
  obtain ⟨shape, nonempty, centred⟩ := reached_centred path
  have same : viewport.window.shape = shape := congrArg Window.shape centred
  subst same
  exact centred

theorem reached_window (path : Reached viewport) : viewport.window.Reached := by
  rw [reached_own path]
  exact Window.ofShape_reached _ viewport.window.nonempty viewport.first

theorem first_mem_window (path : Reached viewport) (bound : viewport.first < maxIndex) :
    viewport.first ∈ viewport.window.range := by
  rw [reached_own path]
  apply WindowShape.mem_around viewport.window.nonempty bound
  rw [Int.sub_self]
  exact Nat.zero_le _

inductive Action where
  | measured (first : Nat) (offset : Offset) (key : Option ItemKey)
  | jumped (first : Nat) (offset : Offset)
  | reanchored (count : Nat) (find? : ItemKey → Option Nat)
  | reanchoredIn (source : ItemSource)

def step (viewport : Viewport) : Action → Noted Viewport
  | .measured first offset key => viewport.measured first offset key
  | .jumped first offset => viewport.jumpTo first offset
  | .reanchored count find? => viewport.reanchor count find?
  | .reanchoredIn source => viewport.reanchorIn source

def run (viewport : Viewport) (actions : List Action) : Noted Viewport := actions.foldlM step viewport

@[simp] theorem run_cons (viewport : Viewport) (action : Action) (rest : List Action) :
    (viewport.run (action :: rest)).value = ((viewport.step action).value.run rest).value := by
  simp only [run, List.foldlM_cons, Noted.bind_value]

theorem step_centred (centred : Centred shape nonempty viewport) (action : Action) :
    Centred shape nonempty (viewport.step action).value := by
  cases action with
  | measured first offset key => exact measured_centred centred first offset key
  | jumped first offset => exact measured_centred centred first offset none
  | reanchored count find? => exact reanchor_centred centred count find?
  | reanchoredIn source => exact reanchor_centred centred source.count source.indexOf?

theorem step_reached (path : Reached viewport) (action : Action) :
    Reached (viewport.step action).value := by
  cases action with
  | measured first offset key => exact .measured first offset key path
  | jumped first offset => exact .jumped first offset path
  | reanchored count find? => exact .reanchored count find? path
  | reanchoredIn source => exact .reanchored source.count source.indexOf? path

theorem step_shape (viewport : Viewport) (action : Action) :
    (viewport.step action).value.window.shape = viewport.window.shape := by
  cases action with
  | measured first offset key => exact measured_shape viewport first offset key
  | jumped first offset => exact measured_shape viewport first offset none
  | reanchored count find? => exact reanchor_shape viewport count find?
  | reanchoredIn source => exact reanchor_shape viewport source.count source.indexOf?

theorem run_centred (centred : Centred shape nonempty viewport) (actions : List Action) :
    Centred shape nonempty (viewport.run actions).value := by
  induction actions generalizing viewport with
  | nil => exact centred
  | cons action rest ih =>
    rw [run_cons]
    exact ih (step_centred centred action)

-- `reanchor` without its test for a move: the window is told of the place in any case.
def reanchorAlways (viewport : Viewport) (count : Nat) (find? : ItemKey → Option Nat) :
    Noted Viewport := do
  let first := viewport.target count find?
  if first ≠ viewport.first then Noted.note (.firstMoved viewport.first first)
  let (window, _) ← viewport.window.follow first
  return { viewport with first, window }

-- The test asks whether the viewport moves, and a window whether its own first visible item does.
-- They agree because the two are the same item.
theorem reanchor_eq_always (centred : Centred shape nonempty viewport) (count : Nat)
    (find? : ItemKey → Option Nat) :
    viewport.reanchor count find? = viewport.reanchorAlways count find? := by
  by_cases same : viewport.target count find? = viewport.first
  · have known : viewport.first = viewport.window.first := (congrArg Window.first centred).symm
    have still : viewport.window.follow viewport.first = pure (viewport.window, false) := if_pos known
    rw [reanchor_of_target_eq same]
    simp only [reanchorAlways, same, ne_eq, not_true_eq_false, if_false, still]
    rfl
  · simp only [reanchor, reanchorAlways, same, ne_eq, not_false_eq_true, if_true, if_false]

theorem start_eq_ok (nonempty : 0 < shape.bucket) (first : Nat) (offset : Offset) :
    start shape first offset = .ok (ofWindow (.ofShape shape nonempty first) offset) := by
  rw [start, Window.start_eq_ok_iff.mpr ⟨nonempty, rfl⟩]
  rfl

-- The standard viewport is the one that starts at the front of a list, so it needs no case.
theorem window_follows_first (shape : WindowShape) (nonempty : 0 < shape.bucket) (first : Nat)
    (offset : Offset) (actions : List Action) :
    start .list 0 .zero = .ok default ∧
    ∃ initial, start shape first offset = .ok initial ∧
      let viewport := (initial.run actions).value
      viewport.window.first = viewport.first ∧ viewport.window.shape = shape ∧
      shape.rangeAt viewport.first = .ok viewport.window.range ∧
      ∀ count find?, viewport.reanchor count find? = viewport.reanchorAlways count find? := by
  refine ⟨rfl, _, start_eq_ok nonempty first offset, ?_⟩
  intro viewport
  have started : Centred shape nonempty (ofWindow (.ofShape shape nonempty first) offset) := rfl
  have centred : Centred shape nonempty viewport := run_centred started actions
  refine ⟨congrArg Window.first centred, congrArg Window.shape centred, ?_, ?_⟩
  · rw [WindowShape.rangeAt, if_pos nonempty, centred]
    rfl
  · intro count find?
    exact reanchor_eq_always centred count find?

theorem window_follows_first_out_of_bounds :
    0 < (WindowShape.mk 10 5).bucket ∧ start .list 0 .zero = .ok default ∧
    ∃ initial, start ⟨10, 5⟩ 3 .zero = .ok initial ∧
      let viewport := (initial.run [.measured 45 ⟨9⟩ (some (.authored 7)),
        .reanchored 20 fun _ => some 1000, .reanchoredIn (.ofCount 30)]).value
      viewport.window.first = viewport.first ∧ viewport.window.shape = ⟨10, 5⟩ ∧
      WindowShape.rangeAt ⟨10, 5⟩ viewport.first = .ok viewport.window.range ∧
      ∀ count find?, viewport.reanchor count find? = viewport.reanchorAlways count find? :=
  ⟨by decide, window_follows_first ⟨10, 5⟩ (by decide) 3 .zero _⟩

end Viewport
end VirtualList
