import VirtualList.Content

-- What a content built from a description answers, said of the description alone: an item is
-- looked up among the entries by taking off the count of each entry passed.
namespace VirtualList
namespace Entry

def total : List Entry → Nat
  | [] => 0
  | entry :: rest => entry.count + total rest

def locate? : List Entry → Nat → Option (Nat × Entry)
  | [], _ => none
  | entry :: rest, index =>
    if index < entry.count then some (index, entry) else locate? rest (index - entry.count)

def keyAt (entries : List Entry) (index : Nat) : ItemKey :=
  match locate? entries index with
  | some (inner, entry) =>
    match entry.group.key with
    | some key => .authored (key inner)
    | none => .positional index
  | none => .positional index

@[simp] theorem total_cons (entry : Entry) (rest : List Entry) :
    total (entry :: rest) = entry.count + total rest := rfl

theorem total_append (left right : List Entry) :
    total (left ++ right) = total left + total right := by
  induction left with
  | nil => exact (Nat.zero_add _).symm
  | cons entry rest ih => rw [List.cons_append, total_cons, total_cons, ih, Nat.add_assoc]

theorem locate?_append {left : List Entry} {index : Nat} (passed : total left ≤ index)
    (right : List Entry) : locate? (left ++ right) index = locate? right (index - total left) := by
  induction left generalizing index with
  | nil => rfl
  | cons entry rest ih =>
    rw [total_cons] at passed
    rw [List.cons_append, locate?, if_neg (by omega), ih (by omega), total_cons, Nat.sub_sub]

theorem exists_locate? {entries : List Entry} {index : Nat} (bound : index < total entries) :
    ∃ inner, ∃ entry ∈ entries, locate? entries index = some (inner, entry) := by
  induction entries generalizing index with
  | nil => cases bound
  | cons entry rest ih =>
    rw [total_cons] at bound
    rw [locate?]
    by_cases here : index < entry.count
    · exact ⟨index, entry, List.mem_cons_self, if_pos here⟩
    · have later : index - entry.count < total rest := by omega
      obtain ⟨inner, found, member, located⟩ := ih later
      exact ⟨inner, found, List.mem_cons_of_mem _ member, (if_neg here).trans located⟩

-- Authored keys move along with their entries, whatever stands before them.
theorem keyAt_append_of_keyed {tail : List Entry}
    (keyed : ∀ entry ∈ tail, entry.group.key.isSome = true) {inner : Nat}
    (bound : inner < total tail) (left right : List Entry) :
    keyAt (left ++ tail) (total left + inner) = keyAt (right ++ tail) (total right + inner) := by
  obtain ⟨place, entry, member, located⟩ := exists_locate? bound
  obtain ⟨key, supplied⟩ := Option.isSome_iff_exists.mp (keyed entry member)
  have whole (before : List Entry) :
      locate? (before ++ tail) (total before + inner) = some (place, entry) := by
    rw [locate?_append (Nat.le_add_right ..), Nat.add_sub_cancel_left, located]
  simp only [keyAt, whole, supplied]

end Entry

namespace Content

theorem add_exact {content grown : Content} {entry : Entry}
    (accepted : content.add entry = .ok grown) :
    grown.size = content.size + entry.count ∧ ∀ index, grown.locate? index =
      if index < content.size then content.locate? index
      else if index < grown.size then some (index - content.size, entry.group) else none := by
  unfold add at accepted
  split at accepted
  · rename_i nothing
    cases accepted
    refine ⟨by omega, fun index => ?_⟩
    split
    · rfl
    · rename_i outside
      rw [locate?, SegmentList.find?_eq_none_iff.mpr (Nat.le_of_not_lt outside)]
      rfl
  · refine ⟨(SegmentList.append_eq_ok_iff.mp accepted).2.1, fun index => ?_⟩
    rw [locate?, SegmentList.find?_of_append accepted]
    split
    · rfl
    · split
      · rfl
      · rfl

theorem exists_add {content : Content} {entry : Entry}
    (fits : content.size + entry.count ≤ maxIndex) : ∃ grown, content.add entry = .ok grown := by
  unfold add
  split
  · exact ⟨content, rfl⟩
  · rename_i positive
    exact SegmentList.exists_append (Nat.pos_of_ne_zero positive) fits entry.group

theorem exists_foldlM_add {entries : List Entry} {content : Content}
    (fits : content.size + Entry.total entries ≤ maxIndex) :
    ∃ grown, entries.foldlM add content = .ok grown := by
  induction entries generalizing content with
  | nil => exact ⟨content, rfl⟩
  | cons entry rest ih =>
    rw [Entry.total_cons, ← Nat.add_assoc] at fits
    obtain ⟨middle, added⟩ := exists_add (Nat.le_trans (Nat.le_add_right ..) fits)
    have size := (add_exact added).1
    rw [List.foldlM_cons, added]
    exact ih (size ▸ fits)

theorem exists_of_foldlM_add_cons {entry : Entry} {rest : List Entry} {content grown : Content}
    (accepted : (entry :: rest).foldlM add content = .ok grown) :
    ∃ middle, content.add entry = .ok middle ∧ rest.foldlM add middle = .ok grown := by
  rw [List.foldlM_cons] at accepted
  cases added : content.add entry with
  | error fault =>
    rw [added] at accepted
    cases accepted
  | ok middle =>
    rw [added] at accepted
    exact ⟨middle, rfl, accepted⟩

theorem foldlM_add_exact {entries : List Entry} {content grown : Content}
    (accepted : entries.foldlM add content = .ok grown) :
    grown.size = content.size + Entry.total entries ∧ ∀ index, grown.locate? index =
      if index < content.size then content.locate? index
      else (Entry.locate? entries (index - content.size)).map fun (inner, entry) =>
        (inner, entry.group) := by
  induction entries generalizing content with
  | nil =>
    cases accepted
    refine ⟨rfl, fun index => ?_⟩
    split
    · rfl
    · rename_i outside
      rw [locate?, SegmentList.find?_eq_none_iff.mpr (Nat.le_of_not_lt outside)]
      rfl
  | cons entry rest ih =>
    obtain ⟨middle, added, remaining⟩ := exists_of_foldlM_add_cons accepted
    obtain ⟨size, located⟩ := add_exact added
    obtain ⟨wholeSize, wholeLocated⟩ := ih remaining
    refine ⟨by rw [wholeSize, size, Entry.total_cons, Nat.add_assoc], fun index => ?_⟩
    rw [wholeLocated, located, Entry.locate?]
    by_cases old : index < content.size
    · rw [if_pos (by omega), if_pos old, if_pos old]
    · by_cases here : index - content.size < entry.count
      · rw [if_pos (by omega), if_neg old, if_pos (by omega), if_neg old, if_pos here]
        rfl
      · rw [if_neg (by omega), if_neg old, if_neg here, size, Nat.sub_sub]

theorem exists_ofEntries {entries : List Entry} (fits : Entry.total entries ≤ maxIndex) :
    ∃ content, ofEntries entries = .ok content :=
  exists_foldlM_add (Nat.le_trans (Nat.le_of_eq (Nat.zero_add _)) fits)

theorem size_ofEntries {entries : List Entry} {content : Content}
    (built : ofEntries entries = .ok content) : content.size = Entry.total entries := by
  have size := (foldlM_add_exact built).1
  rw [size]
  exact Nat.zero_add _

theorem locate?_ofEntries {entries : List Entry} {content : Content}
    (built : ofEntries entries = .ok content) (index : Nat) :
    content.locate? index =
      (Entry.locate? entries index).map fun (inner, entry) => (inner, entry.group) := by
  have located := (foldlM_add_exact built).2 index
  rw [located]
  exact if_neg (Nat.not_lt_zero index)

theorem keyAt_ofEntries {entries : List Entry} {content : Content}
    (built : ofEntries entries = .ok content) (index : Nat) :
    content.keyAt index = Entry.keyAt entries index := by
  have located := locate?_ofEntries built index
  unfold locate? at located
  cases found : content.find? index with
  | none =>
    rw [found, eq_comm, Option.map_none, Option.map_eq_none_iff] at located
    simp only [keyAt, Entry.keyAt, found, located]
  | some segment =>
    rw [found, eq_comm, Option.map_some, Option.map_eq_some_iff] at located
    obtain ⟨⟨inner, entry⟩, there, same⟩ := located
    obtain ⟨place, group⟩ := Prod.mk.inj same
    cases supplied : segment.value.key with
    | none => simp only [keyAt_of_find? found, Segment.keyAt, Entry.keyAt, there, group, supplied]
    | some key =>
      simp only [keyAt_of_find? found, Segment.keyAt, Entry.keyAt, there, place, group, supplied]

theorem keyAt_moved {before after tail : List Entry} {former latter : Content}
    (builtFormer : ofEntries (before ++ tail) = .ok former)
    (builtLatter : ofEntries (after ++ tail) = .ok latter)
    (keyed : ∀ entry ∈ tail, entry.group.key.isSome = true) {index : Nat}
    (started : Entry.total before ≤ index) (bound : index < former.size) :
    index - Entry.total before + Entry.total after < latter.size ∧
      latter.keyAt (index - Entry.total before + Entry.total after) = former.keyAt index := by
  obtain ⟨inner, rfl⟩ := Nat.exists_eq_add_of_le started
  rw [size_ofEntries builtFormer, Entry.total_append] at bound
  have inside : inner < Entry.total tail := Nat.lt_of_add_lt_add_left bound
  rw [Nat.add_sub_cancel_left, Nat.add_comm inner]
  constructor
  · rw [size_ofEntries builtLatter, Entry.total_append]
    exact Nat.add_lt_add_left inside _
  · rw [keyAt_ofEntries builtLatter, keyAt_ofEntries builtFormer]
    exact Entry.keyAt_append_of_keyed keyed inside after before

end Content
end VirtualList
