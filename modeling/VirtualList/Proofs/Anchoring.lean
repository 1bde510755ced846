import VirtualList.Proofs.Description
import VirtualList.Proofs.ItemsHistory
import VirtualList.Proofs.ViewportHistory

-- An edit before the first visible item leaves the viewport at that item: it moves by as many
-- positions as the edit added or removed.
namespace VirtualList

namespace WindowedItems

variable {shape : WindowShape} {nonempty : 0 < shape.bucket}

theorem indexOf?_fresh_of_alone {content : Content} {first index : Nat}
    (seen : index ∈ shape.around first) (bound : index < content.size)
    (alone : ∀ other ∈ shape.around first, other < content.size →
      content.keyAt other = content.keyAt index → other = index) :
    (fresh content shape nonempty first).indexOf? (content.keyAt index) = some index := by
  have known := KeyTable.build_knows (shape.around first) content
  have covered : index ∈ (KeyTable.build (shape.around first) content).value.covered :=
    KeyTable.mem_build_covered.mpr ⟨seen, bound⟩
  rw [indexOf?, fresh_table, known.last]
  refine ⟨⟨covered, rfl⟩, ?_⟩
  intro other held
  obtain ⟨inside, stored⟩ := KeyTable.mem_build_covered.mp held.1
  exact Nat.le_of_eq (alone other inside stored held.2)

end WindowedItems

namespace Viewport

theorem target_of_found {viewport : Viewport} {count index : Nat} {find? : ItemKey → Option Nat}
    {key : ItemKey} (anchored : viewport.anchor = some key) (found : find? key = some index) :
    viewport.target count find? = index := by
  rw [target, anchored, Option.bind_some, found, Option.getD_some]

theorem reanchor_of_found {shape : WindowShape} {nonempty : 0 < shape.bucket}
    {viewport : Viewport} (centred : Centred shape nonempty viewport) {count index : Nat}
    {find? : ItemKey → Option Nat} {key : ItemKey} (anchored : viewport.anchor = some key)
    (found : find? key = some index) :
    (viewport.reanchor count find?).value =
      ⟨index, viewport.offset, some key, .ofShape shape nonempty index⟩ := by
  rw [reanchor_value centred, target_of_found anchored found, anchored]

theorem anchor_survives_edit {before after tail : List Entry} {former latter : Content}
    (builtFormer : Content.ofEntries (before ++ tail) = .ok former)
    (builtLatter : Content.ofEntries (after ++ tail) = .ok latter)
    (keyed : ∀ entry ∈ tail, entry.group.key.isSome = true)
    {items : WindowedItems} (shown : items.Reached) (current : items.content = former)
    {viewport : Viewport} (path : viewport.Reached) {i j : Nat} (offset : Offset)
    (started : Entry.total before ≤ i) (bound : i < former.size)
    (shifted : j = i - Entry.total before + Entry.total after)
    (near : ((j : Int) - i).natAbs ≤ viewport.window.shape.margin)
    (alone : ∀ m ∈ (viewport.measured i offset (some (items.keyAt i))).value.window.range,
      m < latter.size → latter.keyAt m = items.keyAt i → m = j) :
    let seen := (viewport.measured i offset (some (items.keyAt i))).value
    let rebuilt := (WindowedItems.ofWindow latter seen.window).value
    let found := (seen.reanchorIn rebuilt.toSource).value
    seen.target rebuilt.count rebuilt.indexOf? = j ∧ found.first = j ∧ found.offset = offset ∧
      found.anchor = some (items.keyAt i) ∧
      found.window.range = viewport.window.shape.around j ∧ rebuilt.keyAt j = items.keyAt i := by
  intro seen rebuilt found
  obtain ⟨shape, nonempty, centred⟩ := reached_centred path
  have sameShape : viewport.window.shape = shape := congrArg Window.shape centred
  have seenCentred : Centred shape nonempty seen := measured_centred centred i offset _
  have seenWindow : seen.window = .ofShape shape nonempty i := seenCentred
  have rebuiltFresh : rebuilt = WindowedItems.fresh latter shape nonempty i := by
    rw [WindowedItems.fresh, ← seenWindow]
  have moved := Content.keyAt_moved builtFormer builtLatter keyed started bound
  rw [← shifted] at moved
  obtain ⟨inside, sameKey⟩ := moved
  rw [← current, ← WindowedItems.keyAt_reached shown] at sameKey
  have visible : j ∈ shape.around i := by
    have fits := latter.fits
    exact WindowShape.mem_around nonempty (Nat.lt_of_lt_of_le inside fits) (sameShape ▸ near)
  have located : rebuilt.indexOf? (items.keyAt i) = some j := by
    rw [rebuiltFresh, ← sameKey]
    have aloneHere : ∀ m ∈ shape.around i, m < latter.size →
        latter.keyAt m = latter.keyAt j → m = j := by
      intro m held stored same
      exact alone m (by rw [seenWindow]; exact held) stored (same.trans sameKey)
    exact WindowedItems.indexOf?_fresh_of_alone visible inside aloneHere
  have anchored : seen.anchor = some (items.keyAt i) := measured_anchor ..
  have target : seen.target rebuilt.count rebuilt.indexOf? = j := target_of_found anchored located
  have again : found = ⟨j, offset, some (items.keyAt i), .ofShape shape nonempty j⟩ :=
    reanchor_of_found seenCentred anchored located
  have keptKey : rebuilt.keyAt j = items.keyAt i := by
    rw [rebuiltFresh, WindowedItems.keyAt_fresh, sameKey]
  rw [again, sameShape]
  exact ⟨target, rfl, rfl, rfl, rfl, keptKey⟩

theorem anchor_survives_prepend :
    ∃ former latter : Content,
      Content.ofEntries [.item none none, .keyed #[7, 8, 7]] = .ok former ∧
      Content.ofEntries [.items 3 none none, .item (some 5) none, .keyed #[7, 8, 7]] = .ok latter ∧
      let items := (WindowedItems.ofWindow former default).value
      let seen := ((default : Viewport).measured 2 ⟨9⟩ (some (items.keyAt 2))).value
      let rebuilt := (WindowedItems.ofWindow latter seen.window).value
      let found := (seen.reanchorIn rebuilt.toSource).value
      items.keyAt 2 = .authored 8 ∧ seen.target rebuilt.count rebuilt.indexOf? = 5 ∧
        found.first = 5 ∧ found.offset = ⟨9⟩ ∧ found.anchor = some (items.keyAt 2) ∧
        found.window.range = WindowShape.list.around 5 ∧ rebuilt.keyAt 5 = items.keyAt 2 := by
  obtain ⟨former, builtFormer⟩ := Content.exists_ofEntries
    (show Entry.total ([.item none none] ++ [.keyed #[7, 8, 7]]) ≤ maxIndex by decide)
  obtain ⟨latter, builtLatter⟩ := Content.exists_ofEntries
    (show Entry.total ([.items 3 none none, .item (some 5) none] ++ [.keyed #[7, 8, 7]]) ≤ maxIndex
      by decide)
  have shown : (WindowedItems.ofWindow former default).value.Reached := .ofWindow former .standard
  have key : (WindowedItems.ofWindow former default).value.keyAt 2 = .authored 8 :=
    (WindowedItems.keyAt_reached shown 2).trans (Content.keyAt_ofEntries builtFormer 2)
  have bound : 2 < former.size := by
    rw [Content.size_ofEntries builtFormer]
    decide
  have alone : ∀ m < 7, Entry.keyAt ([.items 3 none none, .item (some 5) none] ++
      [.keyed #[7, 8, 7]]) m = .authored 8 → m = 5 := by
    decide
  refine ⟨former, latter, builtFormer, builtLatter, key, anchor_survives_edit builtFormer
    builtLatter (by decide) shown rfl .standard ⟨9⟩ (by decide) bound rfl (by decide) ?_⟩
  intro m _ stored same
  rw [key, Content.keyAt_ofEntries builtLatter] at same
  rw [Content.size_ofEntries builtLatter] at stored
  exact alone m stored same

end Viewport
end VirtualList
