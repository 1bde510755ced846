import VirtualList.Proofs.Anchoring
import VirtualList.Proofs.Reach

namespace VirtualList

theorem Window.follow_ofShape_notices (shape : WindowShape) (nonempty : 0 < shape.bucket)
    (first next : Nat) :
    ((ofShape shape nonempty first).follow next).notices =
      if shape.around next = shape.around first then []
      else [.windowMoved (shape.around first) (shape.around next) next] := by
  rw [follow_notices, follow_ofShape]
  by_cases kept : shape.around next = shape.around first
  · simp [kept]
  · simp [kept, ofShape]

namespace Viewport

variable {shape : WindowShape} {nonempty : 0 < shape.bucket} {viewport : Viewport} {count : Nat}
  {find? : ItemKey → Option Nat}

theorem target_of_missed (missed : ∀ key, viewport.anchor = some key → find? key = none) :
    viewport.target count find? = min viewport.first (count - 1) := by
  cases anchored : viewport.anchor with
  | none => simp [target, anchored]
  | some key => simp [target, anchored, missed key anchored]

theorem target_again (viewport : Viewport) (count : Nat) (find? : ItemKey → Option Nat) :
    (viewport.reanchor count find?).value.target count find? = viewport.target count find? := by
  have anchor := (reanchor_frame viewport count find?).2
  have first := reanchor_first viewport count find?
  cases found : viewport.anchor.bind find? with
  | some index => simp [target, anchor, found]
  | none =>
    have cut : viewport.target count find? = min viewport.first (count - 1) := by
      simp [target, found]
    have once : (viewport.reanchor count find?).value.target count find? =
        min (min viewport.first (count - 1)) (count - 1) := by
      simp [target, anchor, found, first]
    rw [once, cut, Nat.min_assoc, Nat.min_self]

theorem reanchor_again (viewport : Viewport) (count : Nat) (find? : ItemKey → Option Nat) :
    (viewport.reanchor count find?).value.reanchor count find? =
      pure (viewport.reanchor count find?).value := by
  apply reanchor_of_target_eq
  rw [target_again, reanchor_first]

-- A viewport that stays has nothing to note, and its window is the one around its place already.
theorem reanchor_notices (centred : Centred shape nonempty viewport) (count : Nat)
    (find? : ItemKey → Option Nat) :
    (viewport.reanchor count find?).notices =
      (if viewport.target count find? = viewport.first then []
        else [.firstMoved viewport.first (viewport.target count find?)]) ++
      (if shape.around (viewport.target count find?) = shape.around viewport.first then []
        else [.windowMoved (shape.around viewport.first)
          (shape.around (viewport.target count find?)) (viewport.target count find?)]) := by
  by_cases same : viewport.target count find? = viewport.first
  · rw [reanchor_of_target_eq same]
    simp [same]
  · rw [← Window.follow_ofShape_notices shape nonempty, ← centred]
    simp [reanchor, same]

theorem reanchor_severities (centred : Centred shape nonempty viewport) (count : Nat)
    (find? : ItemKey → Option Nat) :
    (viewport.reanchor count find?).notices.map Notice.severity =
      (if viewport.target count find? = viewport.first then [] else [.debug]) ++
      (if shape.around (viewport.target count find?) = shape.around viewport.first then []
        else [.trace]) := by
  rw [reanchor_notices centred, List.map_append]
  congr 1
  · split
    · rfl
    · rfl
  · split
    · rfl
    · rfl

theorem target_in_of_greatest {items : WindowedItems} (shown : items.Reached) {key : ItemKey}
    {index : Nat} (anchored : viewport.anchor = some key)
    (greatest : IsGreatest
      {held | held ∈ items.directory.covered ∧ items.content.keyAt held = key} index) :
    viewport.target items.count items.indexOf? = index := by
  rw [← WindowedItems.holders_eq shown] at greatest
  exact target_of_found anchored ((WindowedItems.indexOf?_eq_some_iff shown).mpr greatest)

theorem target_in_of_missing {items : WindowedItems} (shown : items.Reached)
    (missing : ∀ key, viewport.anchor = some key →
      ∀ held ∈ items.directory.covered, items.content.keyAt held ≠ key) :
    viewport.target items.count items.indexOf? = min viewport.first (items.count - 1) := by
  apply target_of_missed
  intro key anchored
  apply (WindowedItems.indexOf?_eq_none_iff shown).mpr
  intro held member
  rw [WindowedItems.holders_eq shown] at member
  exact missing key anchored held member.1 member.2

theorem target_in_eq_first_iff {items : WindowedItems} (shown : items.Reached)
    (seen : viewport.first ∈ items.directory.covered)
    (anchored : viewport.anchor = some (items.content.keyAt viewport.first)) :
    viewport.target items.count items.indexOf? = viewport.first ↔
      ∀ later ∈ items.directory.covered, viewport.first < later →
        items.content.keyAt later ≠ items.content.keyAt viewport.first := by
  have held : viewport.first ∈ items.holders (items.content.keyAt viewport.first) := by
    rw [WindowedItems.holders_eq shown]
    exact ⟨seen, rfl⟩
  obtain ⟨last, order, located⟩ := WindowedItems.exists_indexOf? shown held
  have greatest := (WindowedItems.indexOf?_eq_some_iff shown).mp located
  rw [WindowedItems.holders_eq shown] at greatest
  rw [target_of_found anchored located]
  constructor
  · intro stays later member past same
    have bound : later ≤ last := greatest.2 ⟨member, same⟩
    omega
  · intro alone
    apply Nat.le_antisymm (Nat.le_of_not_lt _) order
    intro past
    exact alone last greatest.1.1 past greatest.1.2

-- A look leads to where the key is found, or else leaves the place as far as the list reaches; it
-- takes the window along, and the rest stays. In a list that keeps a table, a key is found at the
-- last of its items in the window, so that a viewport leaves an item only for a later one of its key.
theorem reanchor_exact {viewport : Viewport} (path : Reached viewport) :
    (∀ count find?,
      let looked := viewport.reanchor count find?
      let place := viewport.target count find?
      (∀ key index, viewport.anchor = some key → find? key = some index → place = index) ∧
      ((∀ key, viewport.anchor = some key → find? key = none) →
        place = min viewport.first (count - 1)) ∧
      looked.value.first = place ∧
      viewport.window.shape.rangeAt place = .ok looked.value.window.range ∧
      looked.value.window.first = place ∧ looked.value.window.shape = viewport.window.shape ∧
      looked.value.offset = viewport.offset ∧ looked.value.anchor = viewport.anchor ∧
      looked.notices =
        (if place = viewport.first then [] else [.firstMoved viewport.first place]) ++
        (if looked.value.window.range = viewport.window.range then []
          else [.windowMoved viewport.window.range looked.value.window.range place]) ∧
      looked.notices.map Notice.severity =
        (if place = viewport.first then [] else [.debug]) ++
        (if looked.value.window.range = viewport.window.range then [] else [.trace]) ∧
      looked.value.target count find? = place ∧
      looked.value.reanchor count find? = pure looked.value) ∧
    ∀ items : WindowedItems, items.Reached →
      let covered := items.directory.covered
      let keyAt := items.content.keyAt
      let place := (viewport.reanchorIn items.toSource).value.first
      (∀ key index, viewport.anchor = some key →
        IsGreatest {held | held ∈ covered ∧ keyAt held = key} index → place = index) ∧
      ((∀ key, viewport.anchor = some key → ∀ held ∈ covered, keyAt held ≠ key) →
        place = min viewport.first (items.count - 1) ∧ (items.count = 0 → place = 0)) ∧
      (viewport.first ∈ covered → viewport.anchor = some (keyAt viewport.first) →
        (place = viewport.first ↔ ∀ later ∈ covered, viewport.first < later →
          keyAt later ≠ keyAt viewport.first)) := by
  have centred := reached_own path
  constructor
  · intro count find? looked place
    have frame := reanchor_frame viewport count find?
    have window : looked.value.window =
        .ofShape viewport.window.shape viewport.window.nonempty place :=
      congrArg Viewport.window (reanchor_value centred count find?)
    have former : viewport.window.range = viewport.window.shape.around viewport.first :=
      congrArg Window.range centred
    have latter : looked.value.window.range = viewport.window.shape.around place :=
      congrArg Window.range window
    refine ⟨?_, target_of_missed, reanchor_first viewport count find?, ?_,
      congrArg Window.first window, reanchor_shape viewport count find?, frame.1, frame.2, ?_, ?_,
      target_again viewport count find?, reanchor_again viewport count find?⟩
    · intro key index anchored found
      exact target_of_found anchored found
    · rw [latter]
      exact WindowShape.rangeAt_eq_ok viewport.window.nonempty place
    · rw [former, latter]
      exact reanchor_notices centred count find?
    · rw [former, latter]
      exact reanchor_severities centred count find?
  · intro items shown covered keyAt place
    have reached : place = viewport.target items.count items.indexOf? := reanchor_first viewport _ _
    rw [reached]
    refine ⟨?_, ?_, target_in_eq_first_iff shown⟩
    · intro key index anchored greatest
      exact target_in_of_greatest shown anchored greatest
    · intro missing
      have cut := target_in_of_missing shown missing
      refine ⟨cut, ?_⟩
      intro nothing
      omega

-- Two items of the window have the key, and the last of them is taken. In a list of twenty without
-- the key the viewport is left at the end, and stays there.
theorem reanchor_exact_with_shared_key :
    ∃ content, Content.ofEntries [.keyed #[7, 8, 7, 9]] = .ok content ∧
      let items := (WindowedItems.ofWindow content (.ofShape ⟨2, 1⟩ (by decide) 0)).value
      let viewport := ((default : Viewport).measured 40 ⟨9⟩ (some (.authored 7))).value
      let missing := viewport.reanchor 20 fun _ => none
      items.Reached ∧ viewport.Reached ∧ (viewport.reanchorIn items.toSource).value.first = 2 ∧
        missing.value.first = 19 ∧ missing.value.offset = ⟨9⟩ ∧
        missing.value.anchor = some (.authored 7) ∧
        missing.notices = [.firstMoved 40 19, .windowMoved ⟨0, 160⟩ ⟨0, 130⟩ 19] ∧
        missing.value.reanchor 20 (fun _ => none) = pure missing.value := by
  obtain ⟨content, built⟩ := Content.exists_ofEntries
    (show Entry.total [.keyed #[7, 8, 7, 9]] ≤ maxIndex by decide)
  have size : content.size = 4 := Content.size_ofEntries built
  have keys : content.keyAt = Entry.keyAt [.keyed #[7, 8, 7, 9]] :=
    funext (Content.keyAt_ofEntries built)
  refine ⟨content, built, ?_⟩
  intro items viewport missing
  have shown : items.Reached := .ofWindow content (Window.ofShape_reached ⟨2, 1⟩ (by decide) 0)
  have path : viewport.Reached := .measured 40 ⟨9⟩ (some (.authored 7)) .standard
  obtain ⟨looks, searches⟩ := reanchor_exact path
  obtain ⟨_, cut, first, window, _, _, offset, anchor, notices, _, _, again⟩ := looks 20 fun _ => none
  have greatest : IsGreatest
      {held | held ∈ items.directory.covered ∧ items.content.keyAt held = .authored 7} 2 := by
    constructor
    · refine ⟨(WindowedItems.mem_directory_covered shown).mpr ⟨?_, ?_⟩, ?_⟩
      · exact (show 2 ∈ WindowShape.around ⟨2, 1⟩ 0 by decide)
      · exact (show 2 < content.size by simp [size])
      · exact (congrFun keys 2).trans (by decide)
    · intro held member
      have seen := ((WindowedItems.mem_directory_covered shown).mp member.1).1
      exact Nat.lt_succ_iff.mp (show held < 3 from seen.2)
  have place := (searches items shown).1 (.authored 7) 2 rfl greatest
  have stop : viewport.target 20 (fun _ => none) = 19 := cut fun _ _ => rfl
  rw [stop, show viewport.window.shape = .list from measured_shape default 40 _ _] at window
  have latter : missing.value.window.range = ⟨0, 130⟩ := (Except.ok.inj window).symm
  refine ⟨shown, path, place, first.trans stop, offset, anchor, ?_, again⟩
  rw [stop, latter] at notices
  exact notices

end Viewport
end VirtualList
