import Mathlib.Data.Finset.Card
import Mathlib.Order.Lattice.Nat
import VirtualList.Proofs.TableLookup

namespace VirtualList
namespace KeyTable

structure Repeats (keyAt : Nat → ItemKey) (range : IndexRange) (former latter : Nat) : Prop where
  held : latter ∈ range
  last : IsGreatest {held | held ∈ IndexRange.mk range.start latter ∧ keyAt held = keyAt latter}
    former

def report (keyAt : Nat → ItemKey) : Nat × Nat → Notice
  | (former, latter) => .keyShared (keyAt latter) former latter

-- What has been noted once the items of `range` have been entered and no others. Every item adds
-- either a pair of items to the repetitions or a key to the keys.
structure Reported (keyAt : Nat → ItemKey) (range : IndexRange) (repeats : List (Nat × Nat))
    (notices : List Notice) : Prop where
  told : notices = repeats.map (report keyAt)
  exactly : ∀ former latter, (former, latter) ∈ repeats ↔ Repeats keyAt range former latter
  inOrder : repeats.Pairwise fun one next => one.2 < next.2
  counted : repeats.length + (range.indices.map keyAt).toFinset.card = range.size

variable {keyAt : Nat → ItemKey} {start stop : Nat} {table : KeyTable}
  {range : IndexRange} {repeats : List (Nat × Nat)} {notices : List Notice}

theorem enter_notices (table : KeyTable) (keyAt : Nat → ItemKey) (index : Nat) :
    (table.enter (keyAt index) index).notices =
      ((table.indexOf? (keyAt index)).toList.map (·, index)).map (report keyAt) := by
  cases found : table.indexOf? (keyAt index) with
  | none => simp [enter, found]
  | some former => simp [enter, found, report]

theorem repeats_succ (known : Knows keyAt ⟨start, stop⟩ table) (started : start ≤ stop)
    {former latter : Nat} :
    Repeats keyAt ⟨start, stop + 1⟩ former latter ↔
      Repeats keyAt ⟨start, stop⟩ former latter ∨
        table.indexOf? (keyAt stop) = some former ∧ stop = latter := by
  constructor
  · intro repeated
    rcases (IndexRange.mem_succ started).mp repeated.held with old | rfl
    · exact .inl ⟨old, repeated.last⟩
    · exact .inr ⟨(known.last _ _).mpr repeated.last, rfl⟩
  · intro repeated
    rcases repeated with old | ⟨found, rfl⟩
    · exact ⟨(IndexRange.mem_succ started).mpr (.inl old.held), old.last⟩
    · exact ⟨(IndexRange.mem_succ started).mpr (.inr rfl), (known.last _ _).mp found⟩

theorem mem_keys_iff (known : Knows keyAt range table) {key : ItemKey} :
    key ∈ (range.indices.map keyAt).toFinset ↔ table.indexOf? key ≠ none := by
  rw [ne_eq, known.missing]
  simp [IndexRange.mem_indices]

theorem enter_counted (known : Knows keyAt ⟨start, stop⟩ table) (started : start ≤ stop)
    (counted : repeats.length + ((IndexRange.mk start stop).indices.map keyAt).toFinset.card =
      (IndexRange.mk start stop).size) :
    (repeats ++ (table.indexOf? (keyAt stop)).toList.map (·, stop)).length +
        ((IndexRange.mk start (stop + 1)).indices.map keyAt).toFinset.card =
      (IndexRange.mk start (stop + 1)).size := by
  have keys : ((IndexRange.mk start (stop + 1)).indices.map keyAt).toFinset =
      insert (keyAt stop) ((IndexRange.mk start stop).indices.map keyAt).toFinset := by
    ext key
    simp [IndexRange.indices_succ started]
  have grown : (IndexRange.mk start (stop + 1)).size = (IndexRange.mk start stop).size + 1 := by
    simp only [IndexRange.size]
    omega
  have seen : keyAt stop ∈ ((IndexRange.mk start stop).indices.map keyAt).toFinset ↔ _ :=
    mem_keys_iff known
  rw [keys, grown, ← counted]
  cases found : table.indexOf? (keyAt stop) with
  | none =>
    have new : keyAt stop ∉ ((IndexRange.mk start stop).indices.map keyAt).toFinset := by
      simp [seen, found]
    simp [Finset.card_insert_of_notMem new, Nat.add_assoc]
  | some former =>
    have old : keyAt stop ∈ ((IndexRange.mk start stop).indices.map keyAt).toFinset := by
      simp [seen, found]
    simp only [Finset.insert_eq_of_mem old, List.length_append, Option.toList_some,
      List.length_map, List.length_singleton]
    omega

theorem enter_reported (known : Knows keyAt ⟨start, stop⟩ table) (started : start ≤ stop)
    (reported : Reported keyAt ⟨start, stop⟩ repeats notices) :
    Reported keyAt ⟨start, stop + 1⟩ (repeats ++ (table.indexOf? (keyAt stop)).toList.map (·, stop))
      (notices ++ (table.enter (keyAt stop) stop).notices) := by
  refine ⟨?_, ?_, ?_, enter_counted known started reported.counted⟩
  · rw [reported.told, enter_notices, List.map_append]
  · intro former latter
    simp [reported.exactly, repeats_succ known started]
  · refine List.pairwise_append.mpr ⟨reported.inOrder, ?_, ?_⟩
    · cases table.indexOf? (keyAt stop) with
      | none => exact .nil
      | some former => exact List.pairwise_singleton ..
    · intro one old next new
      obtain ⟨former, _, rfl⟩ := List.mem_map.mp new
      exact ((reported.exactly one.1 one.2).mp old).held.2

theorem nothing_reported (keyAt : Nat → ItemKey) (inverted : range.stop ≤ range.start) :
    Reported keyAt range [] [] := by
  have nothing : ∀ index, index ∉ range := IndexRange.not_mem_of_le inverted
  refine ⟨rfl, ?_, .nil, ?_⟩
  · intro former latter
    constructor
    · intro member
      cases member
    · intro repeated
      exact absurd repeated.held (nothing latter)
  · simp [IndexRange.indices_eq_nil inverted, IndexRange.size, Nat.sub_eq_zero_of_le inverted]

theorem build_reported (range : IndexRange) (content : Content) :
    ∃ repeats, Reported content.keyAt (build range content).value.covered repeats
      (build range content).notices := by
  -- The next notice depends on what the table knows, so the two go through the walk together.
  have walked := build_induction (motive := fun reached table notices =>
    Knows content.keyAt reached table ∧ ∃ repeats, Reported content.keyAt reached repeats notices)
    range content ?_ ?_
  · exact walked.2
  · intro reached room inverted
    exact ⟨blank_knows _ room inverted, [], nothing_reported _ inverted⟩
  · intro start stop table notices started next reached
    obtain ⟨known, repeats, reported⟩ := reached
    exact ⟨enter_knows known started next, _, enter_reported known started reported⟩

theorem earlier_holders {latter : Nat} (held : latter ∈ range) :
    {held | held ∈ IndexRange.mk range.start latter ∧ keyAt held = keyAt latter} =
      {earlier | earlier ∈ range ∧ earlier < latter ∧ keyAt earlier = keyAt latter} := by
  ext earlier
  simp only [Set.mem_ofPred_eq, IndexRange.mem_iff]
  constructor
  · intro member
    exact ⟨⟨member.1.1, Nat.lt_trans member.1.2 held.2⟩, member.1.2, member.2⟩
  · intro member
    exact ⟨⟨member.1.1, member.2.1⟩, member.2.2⟩

theorem repeats_iff {former latter : Nat} :
    Repeats keyAt range former latter ↔ latter ∈ range ∧
      IsGreatest {earlier | earlier ∈ range ∧ earlier < latter ∧ keyAt earlier = keyAt latter}
        former := by
  constructor
  · intro repeated
    exact ⟨repeated.held, earlier_holders repeated.held ▸ repeated.last⟩
  · intro repeated
    exact ⟨repeated.1, (earlier_holders repeated.1).symm ▸ repeated.2⟩

theorem exists_repeats_iff {latter : Nat} :
    (∃ former, Repeats keyAt range former latter) ↔
      latter ∈ range ∧ ∃ earlier ∈ range, earlier < latter ∧ keyAt earlier = keyAt latter := by
  constructor
  · intro repeated
    obtain ⟨former, repeated⟩ := repeated
    obtain ⟨held, greatest⟩ := repeats_iff.mp repeated
    exact ⟨held, former, greatest.1⟩
  · intro shared
    obtain ⟨held, earlier, there⟩ := shared
    have bounded : BddAbove
        {earlier | earlier ∈ range ∧ earlier < latter ∧ keyAt earlier = keyAt latter} :=
      ⟨latter, fun n member => Nat.le_of_lt member.2.1⟩
    refine ⟨_, repeats_iff.mpr ⟨held, Nat.sSup_mem ⟨earlier, there⟩ bounded, ?_⟩⟩
    intro n member
    exact le_csSup bounded member

theorem Reported.no_repeats_iff (reported : Reported keyAt range repeats notices) :
    notices = [] ↔ ∀ m ∈ range, ∀ n ∈ range, keyAt m = keyAt n → m = n := by
  have once : range.indices.Nodup := List.nodup_range'
  have length : (range.indices.map keyAt).length = range.size := by
    rw [List.length_map, IndexRange.indices, List.length_range']
  have all : (range.indices.map keyAt).toFinset.card = (range.indices.map keyAt).length ↔
      (range.indices.map keyAt).Nodup := Multiset.toFinset_card_eq_card_iff_nodup
  have counted := reported.counted
  rw [List.nodup_map_iff_inj_on once, length] at all
  simp only [IndexRange.mem_indices] at all
  rw [← all, reported.told, List.map_eq_nil_iff, ← List.length_eq_zero_iff]
  omega

-- Every item of the window with a key that an item before it has is reported, once and in order,
-- with the nearest such item; no other item is, and nothing else is noted.
theorem notices_exact (range : IndexRange) (content : Content) :
    let table := (build range content).value
    let notices := (build range content).notices
    let shared := fun latter : Nat => {earlier | earlier ∈ table.covered ∧ earlier < latter ∧
      content.keyAt earlier = content.keyAt latter}
    (∀ index, index ∈ table.covered ↔ index ∈ range ∧ index < content.size) ∧
    ∃ repeats : List (Nat × Nat),
      notices = repeats.map (fun (former, latter) =>
        .keyShared (content.keyAt latter) former latter) ∧
      (∀ notice ∈ notices, notice.severity = .warn) ∧
      repeats.Pairwise (fun one next => one.2 < next.2) ∧
      (∀ former latter, (former, latter) ∈ repeats ↔
        latter ∈ table.covered ∧ IsGreatest (shared latter) former) ∧
      (∀ latter, latter ∈ repeats.map Prod.snd ↔
        latter ∈ table.covered ∧ ∃ earlier, earlier ∈ shared latter) ∧
      notices.length + (table.covered.indices.map content.keyAt).toFinset.card = table.size ∧
      (notices = [] ↔ ∀ m ∈ table.covered, ∀ n ∈ table.covered,
        content.keyAt m = content.keyAt n → m = n) := by
  intro table notices shared
  obtain ⟨repeats, reported⟩ := build_reported range content
  have told : notices = repeats.map (report content.keyAt) := reported.told
  refine ⟨fun index => mem_build_covered, repeats, told, ?_, reported.inOrder, ?_, ?_, ?_,
    reported.no_repeats_iff⟩
  · intro notice member
    rw [told] at member
    obtain ⟨pair, _, rfl⟩ := List.mem_map.mp member
    rfl
  · intro former latter
    rw [reported.exactly, repeats_iff]
  · intro latter
    simp only [List.mem_map, Prod.exists, exists_eq_right, reported.exactly, exists_repeats_iff]
    rfl
  · have room : table.covered.size = table.size := Nat.add_sub_cancel_left ..
    rw [told, List.length_map, ← room]
    exact reported.counted

end KeyTable
end VirtualList
