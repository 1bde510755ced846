import Mathlib.Logic.ExistsUnique
import VirtualList.Proofs.Description

namespace VirtualList
namespace Entry

def id? : Entry → Nat → Option UInt64
  | item key _, _ => key
  | items _ key _, inner => key.map (· inner)
  | keyed ids, inner => ids[inner]?

def label? : Entry → Nat → Option UInt64
  | item _ contentType, _ => contentType
  | items _ _ contentType, inner => contentType.map (· inner)
  | keyed _, _ => none

-- An entry without items is the place of none.
structure Places (entries : List Entry) (index n inner : Nat) (entry : Entry) : Prop where
  stands : entries[n]? = some entry
  inside : inner < entry.count
  offset : index = total (entries.take n) + inner

variable {entries : List Entry} {index n inner : Nat} {entry : Entry}

theorem group_key (inside : inner < entry.count) :
    entry.group.key.map (· inner) = entry.id? inner := by
  cases entry with
  | item key contentType =>
    cases key with
    | none => rfl
    | some id => rfl
  | items count key contentType => rfl
  | keyed ids =>
    have bound : inner < ids.size := inside
    simp only [group, id?, Option.map_some, Array.getD_eq_getD_getElem?,
      Array.getElem?_eq_getElem bound, Option.getD_some]

theorem group_contentType (entry : Entry) (inner : Nat) :
    entry.group.contentType.map (· inner) = entry.label? inner := by
  cases entry with
  | item key contentType =>
    cases contentType with
    | none => rfl
    | some label => rfl
  | items count key contentType => rfl
  | keyed ids => rfl

theorem total_take_of_lt {m : Nat} (stands : entries[n]? = some entry) (later : n < m) :
    total (entries.take n) + entry.count ≤ total (entries.take m) := by
  have past : (entries.take m).take (n + 1) = entries.take n ++ [entry] := by
    rw [List.take_take, Nat.min_eq_left later, List.take_add_one, stands, Option.toList_some]
  rw [← List.take_append_drop (n + 1) (entries.take m), past, total_append, total_append]
  exact Nat.le_add_right ..

namespace Places

theorem cons (placed : Places entries index n inner entry) (head : Entry) :
    Places (head :: entries) (head.count + index) (n + 1) inner entry := by
  refine ⟨placed.stands, placed.inside, ?_⟩
  rw [List.take_succ_cons, total_cons, Nat.add_assoc, ← placed.offset]

theorem not_later {m innermost : Nat} {other : Entry} (placed : Places entries index n inner entry)
    (again : Places entries index m innermost other) : ¬ n < m := by
  intro later
  have ended := total_take_of_lt placed.stands later
  have inside := placed.inside
  have former := placed.offset
  have latter := again.offset
  omega

theorem unique {m innermost : Nat} {other : Entry} (placed : Places entries index n inner entry)
    (again : Places entries index m innermost other) : n = m :=
  Nat.le_antisymm (Nat.le_of_not_lt (again.not_later placed))
    (Nat.le_of_not_lt (placed.not_later again))

theorem locate?_eq (placed : Places entries index n inner entry) :
    locate? entries index = some (inner, entry) := by
  obtain ⟨bound, same⟩ := List.getElem?_eq_some_iff.mp placed.stands
  have split : entries.take n ++ entry :: entries.drop (n + 1) = entries := by
    rw [← same, ← List.drop_eq_getElem_cons bound, List.take_append_drop]
  calc locate? entries index
      = locate? (entries.take n ++ entry :: entries.drop (n + 1))
          (total (entries.take n) + inner) := by rw [split, ← placed.offset]
    _ = locate? (entry :: entries.drop (n + 1)) inner := by
        rw [locate?_append (Nat.le_add_right ..), Nat.add_sub_cancel_left]
    _ = some (inner, entry) := if_pos placed.inside

end Places

theorem exists_places (bound : index < total entries) :
    ∃ n inner entry, Places entries index n inner entry := by
  induction entries generalizing index with
  | nil => cases bound
  | cons head rest ih =>
    rcases Nat.lt_or_ge index head.count with here | later
    · exact ⟨0, index, head, rfl, here, (Nat.zero_add index).symm⟩
    · obtain ⟨remaining, rfl⟩ := Nat.exists_eq_add_of_le later
      have inside : remaining < total rest := Nat.lt_of_add_lt_add_left bound
      obtain ⟨n, inner, entry, placed⟩ := ih inside
      exact ⟨n + 1, inner, entry, placed.cons head⟩

end Entry

namespace Content

variable {entries : List Entry} {content grown : Content} {entry : Entry} {index n inner : Nat}

theorem add_eq_tooManyItems (full : maxIndex < content.size + entry.count) :
    content.add entry = .error .tooManyItems := by
  have fits := content.fits
  have positive : 0 < entry.count := by omega
  rw [add, if_neg (Nat.ne_of_gt positive)]
  exact SegmentList.append_eq_tooManyItems_iff.mpr ⟨positive, full⟩

theorem foldlM_add_eq_tooManyItems (full : maxIndex < content.size + Entry.total entries) :
    entries.foldlM add content = .error .tooManyItems := by
  induction entries generalizing content with
  | nil => exact absurd content.fits (Nat.not_le_of_lt full)
  | cons entry rest ih =>
    rw [Entry.total_cons, ← Nat.add_assoc] at full
    rcases Nat.lt_or_ge maxIndex (content.size + entry.count) with beyond | fits
    · rw [List.foldlM_cons, add_eq_tooManyItems beyond]
      rfl
    · obtain ⟨middle, added⟩ := exists_add fits
      rw [List.foldlM_cons, added]
      apply ih
      rw [(add_exact added).1]
      exact full

theorem ofEntries_eq_tooManyItems_iff :
    ofEntries entries = .error .tooManyItems ↔ maxIndex < Entry.total entries := by
  constructor
  · intro refused
    apply Nat.lt_of_not_le
    intro fits
    obtain ⟨content, built⟩ := exists_ofEntries fits
    rw [refused] at built
    cases built
  · intro full
    exact foldlM_add_eq_tooManyItems (Nat.lt_of_lt_of_le full (Nat.le_add_left ..))

theorem add_length (accepted : content.add entry = .ok grown) :
    grown.length = content.length + if 0 < entry.count then 1 else 0 := by
  unfold add at accepted
  split at accepted
  · rename_i nothing
    cases accepted
    rw [nothing]
    rfl
  · rename_i positive
    have segments := congrArg List.length (SegmentList.append_eq_ok_iff.mp accepted).2.2
    rw [List.length_append] at segments
    rw [if_pos (Nat.pos_of_ne_zero positive)]
    exact segments

theorem foldlM_add_length (accepted : entries.foldlM add content = .ok grown) :
    grown.length = content.length + entries.countP (0 < ·.count) := by
  induction entries generalizing content with
  | nil =>
    cases accepted
    rfl
  | cons entry rest ih =>
    obtain ⟨middle, added, remaining⟩ := exists_of_foldlM_add_cons accepted
    rw [ih remaining, add_length added, List.countP_cons, Nat.add_assoc]
    simp only [decide_eq_true_eq, Nat.add_comm]

theorem mem_foldlM_add (accepted : entries.foldlM add content = .ok grown)
    {segment : Segment ItemGroup} (member : segment ∈ grown.toList) :
    segment ∈ content.toList ∨
      ∃ entry ∈ entries, segment.value = entry.group ∧ segment.size = entry.count := by
  induction entries generalizing content with
  | nil =>
    cases accepted
    exact .inl member
  | cons entry rest ih =>
    obtain ⟨middle, added, remaining⟩ := exists_of_foldlM_add_cons accepted
    rcases ih remaining with old | ⟨later, among, same⟩
    · unfold add at added
      split at added
      · cases added
        exact .inl old
      · rw [(SegmentList.append_eq_ok_iff.mp added).2.2, List.mem_append, List.mem_singleton] at old
        rcases old with before | rfl
        · exact .inl before
        · exact .inr ⟨entry, List.mem_cons_self, rfl, rfl⟩
    · exact .inr ⟨later, List.mem_cons_of_mem entry among, same⟩

-- A segment has as many items as its entry, so a question inside the segment is one the entry can
-- answer.
theorem exists_entry (built : ofEntries entries = .ok content) {segment : Segment ItemGroup}
    (member : segment ∈ content.toList) :
    ∃ entry ∈ entries, segment.value = entry.group ∧ segment.size = entry.count := by
  rcases mem_foldlM_add built member with nothing | among
  · cases nothing
  · exact among

theorem contentTypeAt_of_locate? {group : ItemGroup}
    (located : content.locate? index = some (inner, group)) :
    content.contentTypeAt index = group.contentType.map (· inner) := by
  rw [contentTypeAt, located, Option.map_eq_bind]
  rfl

theorem answers_of_places (built : ofEntries entries = .ok content)
    (placed : Entry.Places entries index n inner entry) :
    content.locate? index = some (inner, entry.group) ∧
      content.keyAt index = (entry.id? inner).elim (.positional index) .authored ∧
      content.contentTypeAt index = entry.label? inner := by
  have located : content.locate? index = some (inner, entry.group) := by
    rw [locate?_ofEntries built, placed.locate?_eq, Option.map_some]
  refine ⟨located, ?_, ?_⟩
  · rw [keyAt_ofEntries built, Entry.keyAt, placed.locate?_eq, ← Entry.group_key placed.inside]
    cases supplied : entry.group.key with
    | none => simp only [supplied, Option.map_none, Option.elim_none]
    | some key => simp only [supplied, Option.map_some, Option.elim_some]
  · exact (contentTypeAt_of_locate? located).trans (Entry.group_contentType entry inner)

theorem answers_of_size_le (beyond : content.size ≤ index) :
    content.locate? index = none ∧ content.keyAt index = .positional index ∧
      content.contentTypeAt index = none := by
  have nothing : content.locate? index = none := by
    rw [locate?, SegmentList.find?_eq_none_iff.mpr beyond, Option.map_none]
  refine ⟨nothing, keyAt_of_size_le beyond, ?_⟩
  rw [contentTypeAt, nothing]
  rfl

-- A description is refused for the number of its items only. One that is accepted is answered for
-- item by item, each by the one entry that holds it, and by no entry past the end.
theorem ofEntries_exact (entries : List Entry) :
    (ofEntries entries = .error .tooManyItems ↔ maxIndex < Entry.total entries) ∧
    Fault.tooManyItems.message = "attempt to add with overflow" ∧
    (Entry.total entries ≤ maxIndex → ∃ content, ofEntries entries = .ok content ∧
      content.size = Entry.total entries ∧
      content.length = entries.countP (0 < ·.count) ∧
      (∀ index < content.size, ∃! n, ∃ inner entry, Entry.Places entries index n inner entry) ∧
      (∀ index n inner entry, Entry.Places entries index n inner entry →
        content.locate? index = some (inner, entry.group) ∧
        content.keyAt index = (entry.id? inner).elim (.positional index) .authored ∧
        content.contentTypeAt index = entry.label? inner) ∧
      ∀ index, content.size ≤ index →
        content.locate? index = none ∧ content.keyAt index = .positional index ∧
        content.contentTypeAt index = none) := by
  refine ⟨ofEntries_eq_tooManyItems_iff, rfl, ?_⟩
  intro fits
  obtain ⟨content, built⟩ := exists_ofEntries fits
  have size := size_ofEntries built
  refine ⟨content, built, size, ?_, ?_, ?_, ?_⟩
  · exact (foldlM_add_length built).trans (Nat.zero_add _)
  · intro index bound
    obtain ⟨n, inner, entry, placed⟩ := Entry.exists_places (size ▸ bound)
    refine ⟨n, ⟨inner, entry, placed⟩, ?_⟩
    intro m again
    obtain ⟨innermost, other, there⟩ := again
    exact there.unique placed
  · intro index n inner entry placed
    exact answers_of_places built placed
  · intro index beyond
    exact answers_of_size_le beyond

end Content
end VirtualList
