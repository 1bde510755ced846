import Mathlib.Data.Finset.Card
import Mathlib.Dynamics.FixedPoints.Basic
import VirtualList.Proofs.Description
import VirtualList.Proofs.ItemsHistory
import VirtualList.Proofs.ViewportHistory

namespace VirtualList
namespace Viewport

def view (content : Content) (viewport : Viewport) : WindowedItems :=
  (WindowedItems.ofWindow content viewport.window).value

-- The list is made around the window as it is before the look.
def refresh (viewport : Viewport) (content : Content) : Noted Viewport := do
  let items ← WindowedItems.ofWindow content viewport.window
  viewport.reanchorIn items.toSource

def round (content : Content) (viewport : Viewport) : Viewport := (viewport.refresh content).value

def found? (content : Content) (viewport : Viewport) : Option Nat :=
  viewport.anchor.bind (view content viewport).indexOf?

def occurrences (content : Content) (anchor : Option ItemKey) : Finset Nat :=
  (Finset.range content.size).filter fun held => anchor = some (content.keyAt held)

def ahead (content : Content) (viewport : Viewport) : Finset Nat :=
  (occurrences content viewport.anchor).filter (viewport.first < ·)

structure Standing (content : Content) (viewport : Viewport) : Prop where
  inside : viewport.first < content.size
  anchored : viewport.anchor = some (content.keyAt viewport.first)

structure Settled (content : Content) (viewport : Viewport) : Prop where
  returned : viewport.target content.size (view content viewport).indexOf? = viewport.first
  unchanged : Function.IsFixedPt (round content) viewport

variable {content : Content} {viewport : Viewport} {index : Nat}

theorem view_reached (content : Content) (path : Reached viewport) :
    (view content viewport).Reached := .ofWindow content (reached_window path)

theorem view_keyAt (content : Content) (path : Reached viewport) (index : Nat) :
    (view content viewport).keyAt index = content.keyAt index :=
  WindowedItems.keyAt_reached (view_reached content path) index

theorem round_reached (content : Content) (path : Reached viewport) :
    (round content viewport).Reached := .reanchored _ _ path

theorem rounds_reached (content : Content) (path : Reached viewport) (n : Nat) :
    ((round content)^[n] viewport).Reached := by
  induction n generalizing viewport with
  | zero => exact path
  | succ n ih => exact ih (round_reached content path)

theorem round_anchor (content : Content) (viewport : Viewport) :
    (round content viewport).anchor = viewport.anchor := (reanchor_frame viewport _ _).2

theorem round_first (content : Content) (viewport : Viewport) :
    (round content viewport).first =
      (found? content viewport).getD (min viewport.first (content.size - 1)) :=
  reanchor_first viewport _ _

theorem fixed_of_first (same : (round content viewport).first = viewport.first) :
    Function.IsFixedPt (round content) viewport := by
  have target := (reanchor_first viewport _ _).symm.trans same
  exact congrArg Noted.value (reanchor_of_target_eq target)

theorem settled_of_fixed (fixed : Function.IsFixedPt (round content) viewport) :
    Settled content viewport :=
  ⟨(reanchor_first viewport _ _).symm.trans (congrArg Viewport.first fixed), fixed⟩

theorem standing_of_found (path : Reached viewport) (found : found? content viewport = some index) :
    Standing content (round content viewport) := by
  obtain ⟨key, anchored, located⟩ := Option.bind_eq_some_iff.mp found
  have greatest := (WindowedItems.indexOf?_eq_some_iff (view_reached content path)).mp located
  obtain ⟨_, inside, stands⟩ := greatest.1
  have first : (round content viewport).first = index := by
    rw [round_first, found, Option.getD_some]
  refine ⟨first ▸ inside, ?_⟩
  rw [round_anchor, first, anchored, ← stands, view_keyAt content path]

theorem exists_found (path : Reached viewport) (standing : Standing content viewport) :
    ∃ index, viewport.first ≤ index ∧ found? content viewport = some index := by
  have seen := first_mem_window path (Nat.lt_of_lt_of_le standing.inside content.fits)
  have held : viewport.first ∈ (view content viewport).holders (content.keyAt viewport.first) :=
    ⟨seen, standing.inside, view_keyAt content path viewport.first⟩
  obtain ⟨index, later, located⟩ := WindowedItems.exists_indexOf? (view_reached content path) held
  refine ⟨index, later, ?_⟩
  rw [found?, standing.anchored, Option.bind_some, located]

theorem round_of_standing (path : Reached viewport) (standing : Standing content viewport) :
    Standing content (round content viewport) ∧ viewport.first ≤ (round content viewport).first := by
  obtain ⟨index, later, found⟩ := exists_found path standing
  refine ⟨standing_of_found path found, ?_⟩
  rw [round_first, found, Option.getD_some]
  exact later

theorem rounds_of_standing (path : Reached viewport) (standing : Standing content viewport)
    (n : Nat) : Standing content ((round content)^[n] viewport) ∧
      viewport.first ≤ ((round content)^[n] viewport).first := by
  induction n generalizing viewport with
  | zero => exact ⟨standing, Nat.le_refl _⟩
  | succ n ih =>
    obtain ⟨next, later⟩ := round_of_standing path standing
    obtain ⟨last, latest⟩ := ih (round_reached content path) next
    exact ⟨last, Nat.le_trans later latest⟩

theorem mem_occurrences {anchor : Option ItemKey} :
    index ∈ occurrences content anchor ↔
      index < content.size ∧ anchor = some (content.keyAt index) := by
  rw [occurrences, Finset.mem_filter, Finset.mem_range]

theorem ahead_lt_occurrences (standing : Standing content viewport) :
    (ahead content viewport).card < (occurrences content viewport.anchor).card := by
  apply Finset.card_lt_card
  apply Finset.filter_ssubset.mpr
  exact ⟨viewport.first, mem_occurrences.mpr ⟨standing.inside, standing.anchored⟩,
    Nat.lt_irrefl _⟩

theorem ahead_round_lt (path : Reached viewport) (standing : Standing content viewport)
    (moved : (round content viewport).first ≠ viewport.first) :
    (ahead content (round content viewport)).card < (ahead content viewport).card := by
  obtain ⟨next, later⟩ := round_of_standing path standing
  have past : viewport.first < (round content viewport).first := Nat.lt_of_le_of_ne later moved.symm
  have reached : (round content viewport).first ∈ ahead content viewport := by
    refine Finset.mem_filter.mpr ⟨mem_occurrences.mpr ⟨next.inside, ?_⟩, past⟩
    rw [← next.anchored, round_anchor]
  have fewer : ahead content (round content viewport) ⊆ ahead content viewport := by
    intro held member
    rw [ahead, Finset.mem_filter, round_anchor] at member
    exact Finset.mem_filter.mpr ⟨member.1, Nat.lt_trans past member.2⟩
  apply Finset.card_lt_card
  apply (Finset.ssubset_iff_of_subset fewer).mpr
  refine ⟨_, reached, ?_⟩
  intro member
  exact Nat.lt_irrefl _ (Finset.mem_filter.mp member).2

theorem fixed_rounds_mono {m n : Nat} (le : m ≤ n)
    (fixed : Function.IsFixedPt (round content) ((round content)^[m] viewport)) :
    Function.IsFixedPt (round content) ((round content)^[n] viewport) := by
  obtain ⟨more, rfl⟩ := Nat.exists_eq_add_of_le' le
  rw [Function.iterate_add_apply, (fixed.iterate more).eq]
  exact fixed

theorem fixed_of_standing {n : Nat} (path : Reached viewport) (standing : Standing content viewport)
    (bound : (ahead content viewport).card ≤ n) :
    Function.IsFixedPt (round content) ((round content)^[n] viewport) := by
  -- From an item that has the key a viewport moves only to a later one, so `ahead` gets smaller.
  induction n generalizing viewport with
  | zero =>
    apply fixed_of_first
    apply Classical.byContradiction
    intro moved
    have fewer := ahead_round_lt path standing moved
    exact Nat.not_lt_zero _ (Nat.lt_of_lt_of_le fewer bound)
  | succ n ih =>
    by_cases stays : (round content viewport).first = viewport.first
    · exact fixed_rounds_mono (Nat.zero_le _) (fixed_of_first stays)
    · have fewer := ahead_round_lt path standing stays
      exact ih (round_reached content path) (round_of_standing path standing).1
        (Nat.le_of_lt_succ (Nat.lt_of_lt_of_le fewer bound))

theorem fixed_of_missed (missed : found? content viewport = none)
    (bound : viewport.first ≤ content.size - 1) :
    Function.IsFixedPt (round content) viewport := by
  apply fixed_of_first
  rw [round_first, missed, Option.getD_none]
  exact Nat.min_eq_left bound

-- The look that finds the key leads to one occurrence, and every further move to another.
theorem fixed_of_found (path : Reached viewport) (found : found? content viewport = some index) :
    Function.IsFixedPt (round content)
      ((round content)^[(occurrences content viewport.anchor).card] viewport) := by
  have next := standing_of_found path found
  have fewer := ahead_lt_occurrences next
  rw [round_anchor] at fewer
  obtain ⟨n, count⟩ := Nat.exists_eq_add_one_of_ne_zero (Nat.ne_zero_of_lt fewer)
  rw [count] at fewer
  rw [count, Function.iterate_succ_apply]
  exact fixed_of_standing (round_reached content path) next (Nat.le_of_lt_succ fewer)

theorem fixed_after_occurrences (path : Reached viewport) (content : Content) :
    Function.IsFixedPt (round content)
      ((round content)^[(occurrences content viewport.anchor).card + 1] viewport) := by
  cases found : found? content viewport with
  | some index => exact fixed_rounds_mono (Nat.le_succ _) (fixed_of_found path found)
  | none =>
    have first : (round content viewport).first = min viewport.first (content.size - 1) := by
      rw [round_first, found, Option.getD_none]
    -- A key that the first look misses can come into view when the place is cut at the end of the
    -- list. If it does not, the viewport rests where it was cut.
    cases again : found? content (round content viewport) with
    | some index =>
      rw [Function.iterate_succ_apply, ← round_anchor content]
      exact fixed_of_found (round_reached content path) again
    | none =>
      have cut : (round content viewport).first ≤ content.size - 1 := by
        rw [first]
        exact Nat.min_le_right ..
      exact fixed_rounds_mono (m := 1) (Nat.le_add_left ..) (fixed_of_missed again cut)

theorem occurrences_le_one (anchor : Option ItemKey)
    (distinct : ∀ m < content.size, ∀ n < content.size, content.keyAt m = content.keyAt n → m = n) :
    (occurrences content anchor).card ≤ 1 := by
  apply Finset.card_le_one.mpr
  intro m inner n outer
  rw [mem_occurrences] at inner outer
  exact distinct m inner.1 n outer.1 (Option.some.inj (inner.2.symm.trans outer.2))

theorem rounds_settle {viewport : Viewport} (path : Reached viewport) (content : Content) :
    (∀ n, (occurrences content viewport.anchor).card + 1 ≤ n →
      Settled content ((round content)^[n] viewport)) ∧
    ((∀ m < content.size, ∀ n < content.size, content.keyAt m = content.keyAt n → m = n) →
      ∀ n, 2 ≤ n → Settled content ((round content)^[n] viewport)) ∧
    (∀ n index, found? content ((round content)^[n] viewport) = some index →
      ∀ former latter, n < former → former ≤ latter →
        ((round content)^[former] viewport).first ≤ ((round content)^[latter] viewport).first) := by
  have fixed := fixed_after_occurrences path content
  refine ⟨?_, ?_, ?_⟩
  · intro n enough
    exact settled_of_fixed (fixed_rounds_mono enough fixed)
  · intro distinct n enough
    have once := occurrences_le_one viewport.anchor distinct
    exact settled_of_fixed (fixed_rounds_mono (Nat.le_trans (Nat.succ_le_succ once) enough) fixed)
  · intro n index found former latter after order
    have start := standing_of_found (rounds_reached content path n) found
    rw [← Function.iterate_succ_apply' (round content)] at start
    obtain ⟨steps, rfl⟩ := Nat.exists_eq_add_of_le' after
    obtain ⟨more, rfl⟩ := Nat.exists_eq_add_of_le' order
    have there := (rounds_of_standing (rounds_reached content path (n + 1)) start steps).1
    rw [← Function.iterate_add_apply] at there
    rw [Function.iterate_add_apply (round content) more]
    exact (rounds_of_standing (rounds_reached content path _) there more).2

theorem rounds_settle_past_end :
    ∃ content viewport, Content.ofEntries [.keyed #[7, 1, 7, 1, 7]] = .ok content ∧
      Reached viewport ∧ viewport.first = 40 ∧ viewport.anchor = some (.authored 7) ∧
      (occurrences content viewport.anchor).card = 3 ∧
      (∀ n, 4 ≤ n → Settled content ((round content)^[n] viewport)) ∧
      (∀ n index, found? content ((round content)^[n] viewport) = some index →
        ∀ former latter, n < former → former ≤ latter →
          ((round content)^[former] viewport).first ≤
            ((round content)^[latter] viewport).first) := by
  obtain ⟨content, built⟩ := Content.exists_ofEntries
    (show Entry.total [.keyed #[7, 1, 7, 1, 7]] ≤ maxIndex by decide)
  have path : Reached (measured (ofWindow (.ofShape ⟨2, 1⟩ (by decide) 0) .zero) 40 .zero
      (some (.authored 7))).value := .measured 40 .zero _ (.start (start_eq_ok (by decide) 0 .zero))
  have size : content.size = 5 := Content.size_ofEntries built
  have count : (occurrences content (some (.authored 7))).card = 3 := by
    simp only [occurrences, size, Content.keyAt_ofEntries built]
    decide
  have settles := rounds_settle path content
  rw [measured_anchor, count] at settles
  exact ⟨content, _, built, path, rfl, rfl, count, settles.1, settles.2.2⟩

end Viewport
end VirtualList
