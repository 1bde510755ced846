import VirtualList.Proofs.Description
import VirtualList.Proofs.ItemsHistory

-- Look-up through the table of a window against a search of the whole list from its front. Of the
-- items that share a key the search finds the first, and the table the last one in the window.
namespace VirtualList

theorem searchFor_eq_some_iff {count index : Nat} {keyAt : Nat → ItemKey} {key : ItemKey} :
    searchFor count keyAt key = some index ↔
      IsLeast {held | held < count ∧ keyAt held = key} index := by
  rw [searchFor, firstHolding_eq_some_iff]
  simp only [beq_iff_eq, beq_eq_false_iff_ne, Nat.zero_add]
  constructor
  · intro found
    obtain ⟨_, bound, stands, earlier⟩ := found
    refine ⟨⟨bound, stands⟩, ?_⟩
    intro held member
    apply Nat.le_of_not_lt
    intro before
    exact earlier held (Nat.zero_le held) before member.2
  · intro found
    obtain ⟨⟨bound, stands⟩, least⟩ := found
    refine ⟨Nat.zero_le index, bound, stands, ?_⟩
    intro held _ before same
    exact Nat.not_le_of_lt before (least ⟨Nat.lt_trans before bound, same⟩)

theorem searchFor_eq_none_iff {count : Nat} {keyAt : Nat → ItemKey} {key : ItemKey} :
    searchFor count keyAt key = none ↔ ∀ held < count, keyAt held ≠ key := by
  rw [searchFor, firstHolding_eq_none_iff]
  simp only [beq_eq_false_iff_ne, Nat.zero_add, Nat.zero_le, true_imp_iff]

theorem exists_searchFor {count held : Nat} {keyAt : Nat → ItemKey} (bound : held < count) :
    ∃ least ≤ held, searchFor count keyAt (keyAt held) = some least := by
  cases found : searchFor count keyAt (keyAt held) with
  | none => exact absurd rfl (searchFor_eq_none_iff.mp found held bound)
  | some least => exact ⟨least, (searchFor_eq_some_iff.mp found).2 ⟨bound, rfl⟩, rfl⟩

namespace WindowedItems

variable {items : WindowedItems} {key : ItemKey} {index : Nat}

-- Without repetitions the first item with a key is also the last.
theorem indexOf?_iff_of_distinct (path : Reached items)
    (distinct : ∀ m < items.count, ∀ n < items.count, items.keyAt m = items.keyAt n → m = n) :
    items.indexOf? key = some index ↔
      searchFor items.count items.keyAt key = some index ∧ index ∈ items.window.range := by
  rw [indexOf?_eq_some_iff path, searchFor_eq_some_iff]
  constructor
  · intro greatest
    obtain ⟨seen, bound, stands⟩ := greatest.1
    refine ⟨⟨⟨bound, stands⟩, ?_⟩, seen⟩
    intro held member
    exact Nat.le_of_eq (distinct index bound held member.1 (stands.trans member.2.symm))
  · intro least
    obtain ⟨⟨⟨bound, stands⟩, _⟩, seen⟩ := least
    refine ⟨⟨seen, bound, stands⟩, ?_⟩
    intro held member
    exact Nat.le_of_eq (distinct held member.2.1 index bound (member.2.2.trans stands.symm))

theorem indexOf?_eq_search_of_covered (path : Reached items)
    (distinct : ∀ m < items.count, ∀ n < items.count, items.keyAt m = items.keyAt n → m = n)
    (covered : ∀ held < items.count, held ∈ items.window.range) :
    items.indexOf? key = searchFor items.count items.keyAt key := by
  apply Option.ext
  intro index
  rw [indexOf?_iff_of_distinct path distinct]
  constructor
  · intro found
    exact found.1
  · intro found
    exact ⟨found, covered index (searchFor_eq_some_iff.mp found).1.1⟩

theorem indexOf?_refines_search {items : WindowedItems} (path : Reached items) :
    let windowed := items.toSource.indexOf?
    let linear := (ItemSource.ofKeys items.count items.keyAt).indexOf?
    (∀ key index, linear key = some index ↔
      IsLeast {held | held < items.count ∧ items.keyAt held = key} index) ∧
    (∀ key index, windowed key = some index →
      index < items.count ∧ index ∈ items.window.range ∧ items.keyAt index = key ∧
        ∃ least ≤ index, linear key = some least) ∧
    (∀ key, linear key = none → windowed key = none) ∧
    ((∀ m < items.content.size, ∀ n < items.content.size,
        items.content.keyAt m = items.content.keyAt n → m = n) →
      (∀ key index, windowed key = some index ↔
        linear key = some index ∧ index ∈ items.window.range) ∧
      ((∀ index < items.count, index ∈ items.window.range) →
        ∀ key, windowed key = linear key)) := by
  intro windowed linear
  refine ⟨fun key index => searchFor_eq_some_iff, ?_, ?_, ?_⟩
  · intro key index found
    obtain ⟨seen, bound, stands⟩ := ((indexOf?_eq_some_iff path).mp found).1
    have least : ∃ least ≤ index, linear (items.keyAt index) = some least := exists_searchFor bound
    exact ⟨bound, seen, stands, stands ▸ least⟩
  · intro key missing
    apply (indexOf?_eq_none_iff path).mpr
    intro held member
    exact searchFor_eq_none_iff.mp missing held member.2.1 member.2.2
  · intro contentDistinct
    have distinct : ∀ m < items.count, ∀ n < items.count,
        items.keyAt m = items.keyAt n → m = n := by
      intro m inner n outer same
      rw [keyAt_reached path, keyAt_reached path] at same
      exact contentDistinct m inner n outer same
    exact ⟨fun key index => indexOf?_iff_of_distinct path distinct,
      fun covered key => indexOf?_eq_search_of_covered path distinct covered⟩

theorem indexOf?_refines_search_past_window :
    ∃ content items, Content.ofEntries [.keyed #[7, 8, 9, 5]] = .ok content ∧
      items = (ofWindow content (.ofShape ⟨2, 1⟩ (by decide) 0)).value ∧ items.Reached ∧
      items.toSource.indexOf? (.authored 9) = some 2 ∧
      items.toSource.indexOf? (.authored 5) = none ∧
      (ItemSource.ofKeys items.count items.keyAt).indexOf? (.authored 5) = some 3 := by
  obtain ⟨content, built⟩ := Content.exists_ofEntries
    (show Entry.total [.keyed #[7, 8, 9, 5]] ≤ maxIndex by decide)
  have window : Window.Reached (.ofShape ⟨2, 1⟩ (by decide) 0) :=
    .start (Window.start_eq_ok_iff.mpr ⟨by decide, rfl⟩)
  have path : (ofWindow content (.ofShape ⟨2, 1⟩ (by decide) 0)).value.Reached :=
    .ofWindow content window
  have size : content.size = 4 := Content.size_ofEntries built
  have keys : content.keyAt = Entry.keyAt [.keyed #[7, 8, 9, 5]] :=
    funext (Content.keyAt_ofEntries built)
  have shown : (ofWindow content (.ofShape ⟨2, 1⟩ (by decide) 0)).value.keyAt = content.keyAt :=
    funext (keyAt_reached path)
  have distinct : ∀ m < content.size, ∀ n < content.size,
      content.keyAt m = content.keyAt n → m = n := by
    rw [size, keys]
    decide
  have linear (key : ItemKey) : (ItemSource.ofKeys content.size content.keyAt).indexOf? key =
      searchFor 4 (Entry.keyAt [.keyed #[7, 8, 9, 5]]) key := by
    rw [← size, ← keys]
    rfl
  have last : (ItemSource.ofKeys content.size content.keyAt).indexOf? (.authored 5) = some 3 :=
    (linear _).trans (by decide)
  have agree := ((indexOf?_refines_search path).2.2.2 distinct).1
  rw [shown] at agree
  refine ⟨content, _, built, rfl, path, (agree _ _).mpr ⟨?_, ?_⟩, ?_, ?_⟩
  · exact (linear _).trans (by decide)
  · exact (show 2 ∈ WindowShape.around ⟨2, 1⟩ 0 by decide)
  · apply Option.eq_none_iff_forall_ne_some.mpr
    intro index found
    obtain ⟨least, seen⟩ := (agree _ _).mp found
    cases Option.some.inj (last.symm.trans least)
    exact absurd seen (show 3 ∉ WindowShape.around ⟨2, 1⟩ 0 by decide)
  · rw [shown]
    exact last

end WindowedItems
end VirtualList
