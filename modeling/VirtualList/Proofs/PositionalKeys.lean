import VirtualList.Proofs.Landing
import VirtualList.Proofs.Locating
import VirtualList.Proofs.Reanchoring

namespace VirtualList

theorem Segment.keyAt_eq_positional_iff {segment : Segment ItemGroup} {index n : Nat} :
    segment.keyAt index = .positional n ↔ segment.value.key = none ∧ index = n := by
  unfold keyAt
  cases supplied : segment.value.key with
  | none => simp
  | some key => simp

namespace Content

def Unkeyed (content : Content) (index : Nat) : Prop :=
  ∃ segment ∈ content.toList, segment.contains index = true ∧ segment.value.key = none

variable {content : Content} {index n : Nat}

theorem unkeyed_iff_of_find? {segment : Segment ItemGroup}
    (found : content.find? index = some segment) :
    content.Unkeyed index ↔ segment.value.key = none := by
  constructor
  · intro unkeyed
    obtain ⟨other, member, holds, without⟩ := unkeyed
    have located := SegmentList.find?_eq_some_iff.mpr ⟨member, holds⟩
    cases Option.some.inj (found.symm.trans located)
    exact without
  · intro without
    obtain ⟨member, holds⟩ := SegmentList.find?_eq_some_iff.mp found
    exact ⟨segment, member, holds, without⟩

theorem keyAt_eq_positional_iff (bound : index < content.size) :
    content.keyAt index = .positional n ↔ content.Unkeyed index ∧ index = n := by
  obtain ⟨segment, found⟩ := SegmentList.exists_find? bound
  rw [keyAt_of_find? found, Segment.keyAt_eq_positional_iff, unkeyed_iff_of_find? found]

structure Separates (content : Content) (range : IndexRange) (indexOf? : ItemKey → Option Nat) :
    Prop where
  alone : ∀ n, indexOf? (.positional n) = none ∨ indexOf? (.positional n) = some n
  found : ∀ n, indexOf? (.positional n) = some n ↔ n ∈ range ∧ content.Unkeyed n
  authored : ∀ id index, indexOf? (.authored id) = some index → ¬ content.Unkeyed index

end Content

namespace KeyTable

-- No more is used of the table than what it knows, so that keys shared among the authored ones and the
-- order in which the items were entered do not come into it.
theorem Knows.separates {content : Content} {range : IndexRange} {table : KeyTable}
    (known : Knows content.keyAt range table) (inside : ∀ index ∈ range, index < content.size) :
    content.Separates range table.indexOf? := by
  have holder {key : ItemKey} {index : Nat} (located : table.indexOf? key = some index) :
      index ∈ range ∧ content.keyAt index = key := ((known.last key index).mp located).1
  refine ⟨?_, ?_, ?_⟩
  · intro n
    cases located : table.indexOf? (.positional n) with
    | none => exact .inl rfl
    | some index =>
      obtain ⟨held, stands⟩ := holder located
      obtain ⟨_, rfl⟩ := (Content.keyAt_eq_positional_iff (inside index held)).mp stands
      exact .inr rfl
  · intro n
    constructor
    · intro located
      obtain ⟨held, stands⟩ := holder located
      exact ⟨held, ((Content.keyAt_eq_positional_iff (inside n held)).mp stands).1⟩
    · intro there
      obtain ⟨held, unkeyed⟩ := there
      have stands := (Content.keyAt_eq_positional_iff (inside n held)).mpr ⟨unkeyed, rfl⟩
      refine (known.last _ n).mpr ⟨⟨held, stands⟩, ?_⟩
      intro other member
      have same := ((Content.keyAt_eq_positional_iff (inside other member.1)).mp member.2).2
      exact Nat.le_of_eq same
  · intro id index located unkeyed
    obtain ⟨held, stands⟩ := holder located
    have positional := (Content.keyAt_eq_positional_iff (inside index held)).mpr ⟨unkeyed, rfl⟩
    cases stands.symm.trans positional

theorem build_separates (range : IndexRange) (content : Content) :
    content.Separates (build range content).value.covered (build range content).value.indexOf? := by
  apply (build_knows range content).separates
  intro index held
  exact (mem_build_covered.mp held).2

end KeyTable

theorem WindowedItems.reached_separates {items : WindowedItems} (path : items.Reached) :
    items.content.Separates items.directory.covered items.indexOf? := by
  obtain ⟨content, shape, nonempty, first, rfl⟩ := reached_fresh path
  exact KeyTable.build_separates (shape.around first) content

namespace ItemSource

inductive Plain : ItemSource → Prop where
  | windowed {items : WindowedItems} : items.Reached → Plain items.toSource
  | counted {source : ItemSource} : source.keyAt = .positional →
      source.indexOf? = searchFor source.count source.keyAt → Plain source
  | authored {source : ItemSource} :
      (∀ index < source.count, (source.keyAt index).isAuthored = true) →
      source.indexOf? = searchFor source.count source.keyAt → Plain source

variable {source : ItemSource}

theorem Plain.honest (plain : Plain source) : Honest source := by
  cases plain with
  | windowed path => exact .windowed path
  | counted unnamed search => exact .searched search
  | authored named search => exact .searched search

theorem eq_of_indexOf?_positional (plain : Plain source) {n index : Nat}
    (located : source.indexOf? (.positional n) = some index) : index = n := by
  cases plain with
  | @windowed items path =>
    rcases (WindowedItems.reached_separates path).alone n with missing | there
    · cases missing.symm.trans located
    · exact Option.some.inj (located.symm.trans there)
  | counted unnamed search =>
    rw [search] at located
    have stands := (searchFor_eq_some_iff.mp located).1.2
    rw [unnamed] at stands
    exact ItemKey.positional.inj stands
  | authored named search =>
    rw [search] at located
    obtain ⟨bound, stands⟩ := (searchFor_eq_some_iff.mp located).1
    have authored := named index bound
    rw [stands] at authored
    cases authored

end ItemSource

namespace Viewport

variable {viewport : Viewport} {source : ItemSource}

theorem target_of_positional (plain : source.Plain)
    (anchored : viewport.anchor = some (.positional viewport.first)) :
    viewport.target source.count source.indexOf? = min viewport.first (source.count - 1) := by
  cases located : source.indexOf? (.positional viewport.first) with
  | none =>
    apply target_of_missed
    intro key known
    cases Option.some.inj (anchored.symm.trans known)
    exact located
  | some index =>
    have same := ItemSource.eq_of_indexOf?_positional plain located
    have bound := ItemSource.lt_count_of_indexOf? plain.honest located
    rw [target_of_found anchored located]
    omega

end Viewport

-- A positional key is found where the viewport is or nowhere, so that it never moves the viewport and
-- leaves it where the end of the list would, whatever numbers the authors chose.
theorem positional_keys_stay :
    (∀ (range : IndexRange) (content : Content),
      content.Separates (KeyTable.build range content).value.covered
        (KeyTable.build range content).value.indexOf? ∧
      content.Separates (KeyDirectory.build range content).value.covered
        (KeyDirectory.build range content).value.indexOf?) ∧
    (∀ items : WindowedItems, items.Reached →
      items.content.Separates items.directory.covered items.indexOf?) ∧
    ∀ (viewport : Viewport) (source : ItemSource), source.Plain →
      viewport.anchor = some (.positional viewport.first) →
      let looked := viewport.reanchorIn source
      viewport.target source.count source.indexOf? = min viewport.first (source.count - 1) ∧
      looked.value.first = min viewport.first (source.count - 1) ∧
      (source.count = 0 → looked.value.first = 0) ∧
      (viewport.first < source.count → looked = pure viewport) := by
  refine ⟨?_, fun items path => WindowedItems.reached_separates path, ?_⟩
  · intro range content
    exact ⟨KeyTable.build_separates range content, KeyTable.build_separates range content⟩
  · intro viewport source plain anchored looked
    have place := Viewport.target_of_positional plain anchored
    have first : looked.value.first = min viewport.first (source.count - 1) :=
      (Viewport.reanchor_first viewport source.count source.indexOf?).trans place
    refine ⟨place, first, ?_, ?_⟩
    · intro nothing
      omega
    · intro bound
      apply Viewport.reanchor_of_target_eq
      omega

-- The authored key 2 stands beside a position 2, before and after the change.
theorem positional_keys_stay_beside_same_number :
    ∃ mixed keyed, Content.ofEntries [.keyed #[2], .items 2 none none] = .ok mixed ∧
      Content.ofEntries [.keyed #[2, 2]] = .ok keyed ∧
      let window := Window.ofShape ⟨2, 1⟩ (by decide) 0
      let shown := (WindowedItems.ofWindow mixed window).value
      let changed := (WindowedItems.ofWindow keyed window).value
      let viewport := ((default : Viewport).measured 2 ⟨9⟩ (some (.positional 2))).value
      shown.Reached ∧ shown.indexOf? (.positional 2) = some 2 ∧
        (∀ index, shown.indexOf? (.authored 2) = some index → ¬ mixed.Unkeyed index) ∧
        shown.toSource.Plain ∧ changed.toSource.Plain ∧
        viewport.anchor = some (.positional viewport.first) ∧
        viewport.reanchorIn shown.toSource = pure viewport ∧
        (viewport.reanchorIn changed.toSource).value.first = 1 := by
  obtain ⟨mixed, builtMixed⟩ := Content.exists_ofEntries
    (show Entry.total [.keyed #[2], .items 2 none none] ≤ maxIndex by decide)
  obtain ⟨keyed, builtKeyed⟩ := Content.exists_ofEntries
    (show Entry.total [.keyed #[2, 2]] ≤ maxIndex by decide)
  refine ⟨mixed, keyed, builtMixed, builtKeyed, ?_⟩
  intro window shown changed viewport
  have path : shown.Reached := .ofWindow mixed (Window.ofShape_reached ⟨2, 1⟩ (by decide) 0)
  have edited : changed.Reached := .ofWindow keyed (Window.ofShape_reached ⟨2, 1⟩ (by decide) 0)
  have three : mixed.size = 3 := Content.size_ofEntries builtMixed
  have two : keyed.size = 2 := Content.size_ofEntries builtKeyed
  have unkeyed : mixed.Unkeyed 2 := by
    have stands : mixed.keyAt 2 = .positional 2 :=
      (Content.keyAt_ofEntries builtMixed 2).trans (by decide)
    exact ((Content.keyAt_eq_positional_iff (three ▸ by decide)).mp stands).1
  have seen : 2 ∈ shown.directory.covered := (WindowedItems.mem_directory_covered path).mpr
    ⟨(show 2 ∈ WindowShape.around ⟨2, 1⟩ 0 by decide), (show 2 < mixed.size by simp [three])⟩
  obtain ⟨_, lists, looks⟩ := positional_keys_stay
  obtain ⟨_, found, authored⟩ := lists shown path
  have stays := (looks viewport shown.toSource (.windowed path) rfl).2.2.2
  have cut := (looks viewport changed.toSource (.windowed edited) rfl).2.1
  refine ⟨path, (found 2).mpr ⟨seen, unkeyed⟩, authored 2, .windowed path, .windowed edited, rfl,
    stays (show 2 < mixed.size by simp [three]), cut.trans ?_⟩
  exact (show min 2 (keyed.size - 1) = 1 by simp [two])

end VirtualList
