import VirtualList.Proofs.LinearSearch
import VirtualList.Viewport

namespace VirtualList
namespace ItemSource

-- The window of a list need not be the window of whoever asks.
inductive Honest : ItemSource → Prop where
  | windowed {items : WindowedItems} : items.Reached → Honest items.toSource
  | searched {source : ItemSource} :
      source.indexOf? = searchFor source.count source.keyAt → Honest source

theorem lt_count_of_indexOf? {source : ItemSource} (honest : Honest source) {key : ItemKey}
    {index : Nat} (found : source.indexOf? key = some index) : index < source.count := by
  cases honest with
  | windowed path =>
    have greatest := (WindowedItems.indexOf?_eq_some_iff path).mp found
    exact greatest.1.2.1
  | searched search =>
    rw [search] at found
    exact (searchFor_eq_some_iff.mp found).1.1

end ItemSource

namespace Viewport

theorem found_or_cut (viewport : Viewport) (count : Nat) (find? : ItemKey → Option Nat) :
    (∃ key, find? key = some (viewport.target count find?)) ∨
      viewport.target count find? = min viewport.first (count - 1) := by
  cases found : viewport.anchor.bind find? with
  | none =>
    right
    rw [target, found, Option.getD_none]
  | some index =>
    left
    obtain ⟨key, _, located⟩ := Option.bind_eq_some_iff.mp found
    refine ⟨key, ?_⟩
    rw [target, found, Option.getD_some, located]

theorem target_lt {source : ItemSource} (honest : source.Honest) (viewport : Viewport)
    (positive : 0 < source.count) : viewport.target source.count source.indexOf? < source.count := by
  rcases viewport.found_or_cut source.count source.indexOf? with ⟨key, located⟩ | cut
  · exact ItemSource.lt_count_of_indexOf? honest located
  · omega

theorem target_of_no_items {source : ItemSource} (honest : source.Honest) (viewport : Viewport)
    (nothing : source.count = 0) : viewport.target source.count source.indexOf? = 0 := by
  rcases viewport.found_or_cut source.count source.indexOf? with ⟨key, located⟩ | cut
  · have inside := ItemSource.lt_count_of_indexOf? honest located
    omega
  · omega

theorem reanchor_lands {source : ItemSource} (honest : source.Honest) (viewport : Viewport) :
    let found := (viewport.reanchorIn source).value
    found.first = viewport.target source.count source.indexOf? ∧
      (0 < source.count → found.first < source.count) ∧ (source.count = 0 → found.first = 0) := by
  intro found
  have place : found.first = viewport.target source.count source.indexOf? :=
    reanchor_first viewport source.count source.indexOf?
  refine ⟨place, ?_, ?_⟩
  · intro positive
    rw [place]
    exact target_lt honest viewport positive
  · intro nothing
    rw [place]
    exact target_of_no_items honest viewport nothing

-- Neither the place nor the key nor the window has anything to do with the list.
theorem reanchor_lands_from_afar :
    ∃ content items viewport, Content.ofEntries [.keyed #[7, 8, 9]] = .ok content ∧
      items = (WindowedItems.ofWindow content (.ofShape ⟨2, 1⟩ (by decide) 40)).value ∧
      viewport = ((default : Viewport).measured 1000 ⟨9⟩ (some (.positional 1000))).value ∧
      items.toSource.Honest ∧ (viewport.reanchorIn items.toSource).value.first < 3 := by
  obtain ⟨content, built⟩ := Content.exists_ofEntries
    (show Entry.total [.keyed #[7, 8, 9]] ≤ maxIndex by decide)
  have size : content.size = 3 := Content.size_ofEntries built
  have honest : ItemSource.Honest
      (WindowedItems.ofWindow content (.ofShape ⟨2, 1⟩ (by decide) 40)).value.toSource :=
    .windowed (.ofWindow content (Window.ofShape_reached ⟨2, 1⟩ (by decide) 40))
  refine ⟨content, _, _, built, rfl, rfl, honest, ?_⟩
  have inside := (reanchor_lands honest
    ((default : Viewport).measured 1000 ⟨9⟩ (some (.positional 1000))).value).2.1
  rw [show ItemSource.count _ = 3 from size] at inside
  exact inside (by decide)

end Viewport
end VirtualList
