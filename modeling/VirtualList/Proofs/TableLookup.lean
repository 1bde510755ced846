import Mathlib.Logic.Equiv.Defs
import Mathlib.Order.Bounds.Basic
import VirtualList.Proofs.Traversal

namespace VirtualList
namespace KeyTable

-- What a table knows once the items of `range` have been entered and no others.
structure Knows (keyAt : Nat → ItemKey) (range : IndexRange) (table : KeyTable) : Prop where
  keys : ∀ index, table.keyAt? index = if index ∈ range then some (keyAt index) else none
  last : ∀ key index, table.indexOf? key = some index ↔
    IsGreatest {held | held ∈ range ∧ keyAt held = key} index
  missing : ∀ key, table.indexOf? key = none ↔ ∀ held ∈ range, keyAt held ≠ key

theorem blank_knows (keyAt : Nat → ItemKey) (room : IndexRange) {range : IndexRange}
    (inverted : range.stop ≤ range.start) : Knows keyAt range (blank room) := by
  have nothing : ∀ index, index ∉ range := IndexRange.not_mem_of_le inverted
  refine ⟨?_, ?_, ?_⟩
  · intro index
    rw [keyAt?_blank, if_neg (nothing index)]
  · intro key index
    simp [IsGreatest, nothing]
  · intro key
    simp [nothing]

theorem isGreatest_stop {keyAt : Nat → ItemKey} {start stop : Nat} {key : ItemKey}
    (started : start ≤ stop) (same : keyAt stop = key) :
    IsGreatest {held | held ∈ IndexRange.mk start (stop + 1) ∧ keyAt held = key} stop := by
  refine ⟨⟨(IndexRange.mem_succ started).mpr (.inr rfl), same⟩, ?_⟩
  intro held member
  exact Nat.le_of_lt_succ member.1.2

theorem holders_unchanged {keyAt : Nat → ItemKey} {start stop : Nat} {key : ItemKey}
    (started : start ≤ stop) (different : keyAt stop ≠ key) :
    {held | held ∈ IndexRange.mk start (stop + 1) ∧ keyAt held = key} =
      {held | held ∈ IndexRange.mk start stop ∧ keyAt held = key} := by
  ext held
  constructor
  · intro member
    rcases (IndexRange.mem_succ started).mp member.1 with old | new
    · exact ⟨old, member.2⟩
    · exact absurd (new ▸ member.2) different
  · intro member
    exact ⟨(IndexRange.mem_succ started).mpr (.inl member.1), member.2⟩

theorem enter_knows {keyAt : Nat → ItemKey} {start stop : Nat} {table : KeyTable}
    (known : Knows keyAt ⟨start, stop⟩ table) (started : start ≤ stop)
    (room : stop ∈ table.covered) :
    Knows keyAt ⟨start, stop + 1⟩ (table.enter (keyAt stop) stop).value := by
  refine ⟨?_, ?_, ?_⟩
  · intro index
    rw [keyAt?_enter room, known.keys]
    by_cases new : index = stop
    · rw [if_pos new, if_pos ((IndexRange.mem_succ started).mpr (.inr new)), new]
    · simp only [new, if_false, IndexRange.mem_succ started, or_false]
  · intro key index
    rw [indexOf?_enter]
    by_cases same : keyAt stop = key
    · have greatest := isGreatest_stop started same
      rw [if_pos same, Option.some.injEq]
      constructor
      · intro found
        exact found ▸ greatest
      · intro found
        exact greatest.unique found
    · rw [if_neg same, known.last, holders_unchanged started same]
  · intro key
    rw [indexOf?_enter]
    by_cases same : keyAt stop = key
    · have held := (isGreatest_stop started same).1.1
      rw [if_pos same]
      constructor
      · intro found
        cases found
      · intro absent
        exact absurd same (absent stop held)
    · rw [if_neg same, known.missing]
      constructor
      · intro absent held member
        rcases (IndexRange.mem_succ started).mp member with old | new
        · exact absent held old
        · exact new ▸ same
      · intro absent held member
        exact absent held ((IndexRange.mem_succ started).mpr (.inl member))

def enterFrom (keyAt : Nat → ItemKey) (table : KeyTable) (stop count : Nat) : Noted KeyTable :=
  (List.range' stop count).foldlM (fun table index => table.enter (keyAt index) index) table

theorem enterFrom_succ (keyAt : Nat → ItemKey) (table : KeyTable) (stop count : Nat) :
    enterFrom keyAt table stop (count + 1) =
      table.enter (keyAt stop) stop >>= fun entered =>
        enterFrom keyAt entered (stop + 1) count := by
  rw [enterFrom, List.range'_succ, List.foldlM_cons]
  rfl

theorem enterFrom_covered (keyAt : Nat → ItemKey) (table : KeyTable) (stop count : Nat) :
    (enterFrom keyAt table stop count).value.covered = table.covered := by
  induction count generalizing stop table with
  | zero => rfl
  | succ count ih =>
    rw [enterFrom_succ, Noted.bind_value, ih]
    simp only [covered, enter_start, enter_size]

theorem enterFrom_induction {motive : IndexRange → KeyTable → List Notice → Prop}
    {keyAt : Nat → ItemKey} {start stop count : Nat} {table : KeyTable} {notices : List Notice}
    (step : ∀ {stop table notices}, start ≤ stop → stop ∈ table.covered →
      motive ⟨start, stop⟩ table notices →
      motive ⟨start, stop + 1⟩ (table.enter (keyAt stop) stop).value
        (notices ++ (table.enter (keyAt stop) stop).notices))
    (started : start ≤ stop) (placed : table.start ≤ stop)
    (room : stop + count ≤ table.covered.stop) (reached : motive ⟨start, stop⟩ table notices) :
    motive ⟨start, stop + count⟩ (enterFrom keyAt table stop count).value
      (notices ++ (enterFrom keyAt table stop count).notices) := by
  induction count generalizing stop table notices with
  | zero =>
    rw [enterFrom, List.range'_zero, List.foldlM_nil, Noted.pure_notices, List.append_nil]
    exact reached
  | succ count ih =>
    have next : stop ∈ table.covered := ⟨placed, by omega⟩
    have entered := step started next reached
    have left : stop + 1 + count ≤ (table.enter (keyAt stop) stop).value.covered.stop := by
      simp only [covered, enter_start, enter_size] at room ⊢
      omega
    rw [enterFrom_succ, Noted.bind_value, Noted.bind_notices, ← List.append_assoc,
      Nat.add_comm count 1, ← Nat.add_assoc]
    exact ih (Nat.le_succ_of_le started) (Nat.le_succ_of_le placed) left entered

theorem foldlM_cells {content : Content} {visited : List (Segment ItemGroup × Nat)}
    (located : ∀ cell ∈ visited, content.find? cell.2 = some cell.1) (table : KeyTable) :
    visited.foldlM (fun table (segment, index) => table.enter (segment.keyAt index) index) table =
      (visited.map Prod.snd).foldlM
        (fun table index => table.enter (content.keyAt index) index) table := by
  rw [List.foldlM_map]
  apply foldlM_congr
  intro cell visit table
  rw [Content.keyAt_of_find? (located cell visit)]

theorem build_of_inverted {range : IndexRange} {content : Content}
    (inverted : min range.stop content.size ≤ range.start) : build range content = pure empty := by
  rw [build, if_pos (IndexRange.clip_isEmpty_iff.mpr inverted)]

theorem build_of_lt {range : IndexRange} {content : Content}
    (order : range.start < min range.stop content.size) :
    build range content = enterFrom content.keyAt (blank (range.clip content.size)) range.start
      (range.clip content.size).size := by
  have nonempty := mt IndexRange.clip_isEmpty_iff.mp (Nat.not_le_of_lt order)
  have located : ∀ cell ∈ cells range content, content.find? cell.2 = some cell.1 := by
    intro cell member
    exact find?_of_mem_cells member
  rw [build, if_neg nonempty, foldlM_cells located, cells_indices]
  rfl

theorem blank_covered {range : IndexRange} (order : range.start ≤ range.stop) :
    (blank range).covered = range := by
  have whole : range.start + range.size = range.stop := Nat.add_sub_of_le order
  rw [covered, size, blank, Array.size_replicate]
  exact congrArg (IndexRange.mk range.start) whole

theorem build_covered_of_lt {range : IndexRange} {content : Content}
    (order : range.start < min range.stop content.size) :
    (build range content).value.covered = range.clip content.size := by
  rw [build_of_lt order, enterFrom_covered]
  exact blank_covered (Nat.le_of_lt order)

theorem build_covered_of_inverted {range : IndexRange} {content : Content}
    (inverted : min range.stop content.size ≤ range.start) :
    (build range content).value.covered = .nowhere := by
  rw [build_of_inverted inverted]
  rfl

-- What holds of a blank table and no items, and goes on to hold when the next item is entered in
-- its free slot, holds of a built table and all the items it covers.
theorem build_induction {motive : IndexRange → KeyTable → List Notice → Prop} (range : IndexRange)
    (content : Content)
    (initial : ∀ {reached} room, reached.stop ≤ reached.start → motive reached (blank room) [])
    (step : ∀ {start stop table notices}, start ≤ stop → stop ∈ table.covered →
      motive ⟨start, stop⟩ table notices →
      motive ⟨start, stop + 1⟩ (table.enter (content.keyAt stop) stop).value
        (notices ++ (table.enter (content.keyAt stop) stop).notices)) :
    motive (build range content).value.covered (build range content).value
      (build range content).notices := by
  rcases Nat.lt_or_ge range.start (min range.stop content.size) with order | inverted
  · have whole : range.start + (range.clip content.size).size = min range.stop content.size :=
      Nat.add_sub_of_le (Nat.le_of_lt order)
    have room : range.start + (range.clip content.size).size ≤
        (blank (range.clip content.size)).covered.stop := by
      rw [blank_covered (Nat.le_of_lt order), whole]
      exact Nat.le_refl _
    have filled := enterFrom_induction step (Nat.le_refl range.start) (Nat.le_refl _) room
      (initial _ (Nat.le_refl range.start))
    rw [List.nil_append, whole, ← build_of_lt order] at filled
    rw [build_covered_of_lt order]
    exact filled
  · rw [build_covered_of_inverted inverted, build_of_inverted inverted]
    exact initial _ (Nat.le_refl 0)

theorem mem_build_covered {range : IndexRange} {content : Content} {index : Nat} :
    index ∈ (build range content).value.covered ↔ index ∈ range ∧ index < content.size := by
  rcases Nat.lt_or_ge range.start (min range.stop content.size) with order | inverted
  · rw [build_covered_of_lt order, IndexRange.mem_clip]
  · rw [build_covered_of_inverted inverted, IndexRange.mem_iff, IndexRange.mem_iff]
    simp only [IndexRange.nowhere]
    omega

theorem build_knows (range : IndexRange) (content : Content) :
    Knows content.keyAt (build range content).value.covered (build range content).value := by
  apply build_induction (motive := fun reached table _ => Knows content.keyAt reached table)
  · intro reached room inverted
    exact blank_knows content.keyAt room inverted
  · intro start stop table notices started next known
    exact enter_knows known started next

noncomputable def numbering {keyAt : Nat → ItemKey} {range : IndexRange}
    (distinct : ∀ m ∈ range, ∀ n ∈ range, keyAt m = keyAt n → m = n) :
    {index // index ∈ range} ≃ {key // ∃ index ∈ range, keyAt index = key} :=
  Equiv.ofBijective (fun index => ⟨keyAt index, index, index.property, rfl⟩) <| by
    constructor
    · intro m n same
      exact Subtype.ext (distinct m m.property n n.property (congrArg Subtype.val same))
    · intro key
      obtain ⟨index, held, stands⟩ := key.property
      exact ⟨⟨index, held⟩, Subtype.ext stands⟩

namespace Knows

variable {keyAt : Nat → ItemKey} {range : IndexRange} {table : KeyTable}

theorem keyAt?_eq_some_iff (known : Knows keyAt range table) {key : ItemKey} {index : Nat} :
    table.keyAt? index = some key ↔ index ∈ range ∧ keyAt index = key := by
  rw [known.keys]
  split
  · rename_i held
    simp only [held, true_and, Option.some.injEq]
  · rename_i outside
    simp only [outside, false_and, reduceCtorEq]

theorem keyAt?_of_indexOf? (known : Knows keyAt range table) {key : ItemKey} {index : Nat}
    (found : table.indexOf? key = some index) : table.keyAt? index = some key := by
  have greatest := (known.last key index).mp found
  exact known.keyAt?_eq_some_iff.mpr greatest.1

theorem exists_indexOf? (known : Knows keyAt range table) {index : Nat} (held : index ∈ range) :
    ∃ last, index ≤ last ∧ table.indexOf? (keyAt index) = some last := by
  cases found : table.indexOf? (keyAt index) with
  | none => exact absurd rfl ((known.missing _).mp found index held)
  | some last => exact ⟨last, ((known.last _ _).mp found).2 ⟨held, rfl⟩, rfl⟩

theorem indexOf?_of_distinct (known : Knows keyAt range table)
    (distinct : ∀ m ∈ range, ∀ n ∈ range, keyAt m = keyAt n → m = n) {index : Nat}
    (held : index ∈ range) : table.indexOf? (keyAt index) = some index := by
  obtain ⟨last, _, found⟩ := known.exists_indexOf? held
  have greatest := (known.last _ _).mp found
  rw [found, distinct last greatest.1.1 index held greatest.1.2]

theorem slots_eq (known : Knows keyAt table.covered table) :
    table.slots.toList = table.covered.indices.map fun index => some (keyAt index) := by
  have room : table.covered.size = table.slots.size := Nat.add_sub_cancel_left ..
  apply List.ext_getElem
  · rw [List.length_map, IndexRange.indices, List.length_range', room]
    rfl
  · intro n bound other
    have inside : table.start + n ∈ table.covered :=
      ⟨Nat.le_add_right .., Nat.add_lt_add_left bound _⟩
    have slot := known.keys (table.start + n)
    rw [if_pos inside, keyAt?, if_pos (Nat.le_add_right ..), Nat.add_sub_cancel_left,
      Array.getElem?_eq_getElem bound, Option.join_some] at slot
    simpa [IndexRange.indices, covered] using slot

theorem indexOf?_numbering (known : Knows keyAt range table)
    (distinct : ∀ m ∈ range, ∀ n ∈ range, keyAt m = keyAt n → m = n)
    (key : {key // ∃ index ∈ range, keyAt index = key}) :
    table.indexOf? key.val = some ((numbering distinct).symm key).val := by
  obtain ⟨index, rfl⟩ := (numbering distinct).surjective key
  rw [Equiv.symm_apply_apply]
  exact known.indexOf?_of_distinct distinct index.property

end Knows

-- Every item of the window has its slot filled, with the key that a look-up by position in the
-- content gives; no other position has one.
theorem keys_exact (range : IndexRange) (content : Content) :
    let table := (build range content).value
    let directory := (KeyDirectory.build range content).value
    let stop := min range.stop content.size
    (range.start < stop → table.covered = ⟨range.start, stop⟩ ∧ table.size = stop - range.start) ∧
    (stop ≤ range.start → table.covered = .nowhere ∧ table.isEmpty = true ∧
      ∀ key, table.indexOf? key = none) ∧
    (∀ index, table.keyAt? index =
      if index ∈ table.covered then some (content.keyAt index) else none) ∧
    table.slots.toList = table.covered.indices.map (fun index => some (content.keyAt index)) ∧
    (∀ segment index, (segment, index) ∈ cells range content →
      segment.keyAt index = content.keyAt index) ∧
    directory.covered = table.covered ∧ ∀ index, directory.keyAt? index = table.keyAt? index := by
  intro table directory stop
  have known : Knows content.keyAt table.covered table := build_knows range content
  refine ⟨?_, ?_, known.keys, known.slots_eq, ?_, rfl, fun index => rfl⟩
  · intro order
    have covers : table.covered = ⟨range.start, stop⟩ := build_covered_of_lt order
    refine ⟨covers, ?_⟩
    have room : table.covered.size = table.size := Nat.add_sub_cancel_left ..
    rw [← room, covers]
    rfl
  · intro inverted
    have none : table = empty := congrArg Noted.value (build_of_inverted inverted)
    rw [none]
    exact ⟨rfl, rfl, indexOf?_blank _⟩
  · intro segment index visited
    exact (Content.keyAt_of_find? (find?_of_mem_cells visited)).symm

-- A key stands for the last of the items of the window that have it, and for no item outside the
-- window; without repetitions the two directions of a table undo each other.
theorem positions_exact (range : IndexRange) (content : Content) :
    let table := (build range content).value
    let directory := (KeyDirectory.build range content).value
    (∀ index, index ∈ table.covered ↔ index ∈ range ∧ index < content.size) ∧
    (∀ key index, table.indexOf? key = some index ↔
      IsGreatest {held | held ∈ table.covered ∧ content.keyAt held = key} index) ∧
    (∀ key, table.indexOf? key = none ↔ ∀ held ∈ table.covered, content.keyAt held ≠ key) ∧
    (∀ key index, table.indexOf? key = some index → table.keyAt? index = some key) ∧
    (∀ key index, table.keyAt? index = some key →
      ∃ last, index ≤ last ∧ table.indexOf? key = some last) ∧
    ((∀ m ∈ table.covered, ∀ n ∈ table.covered, content.keyAt m = content.keyAt n → m = n) →
      (∀ key index, table.indexOf? key = some index ↔ table.keyAt? index = some key) ∧
      ∃ numbering : {index // index ∈ table.covered} ≃
          {key // ∃ index ∈ table.covered, content.keyAt index = key},
        (∀ index, table.keyAt? index.val = some (numbering index).val) ∧
        ∀ key, table.indexOf? key.val = some (numbering.symm key).val) ∧
    ∀ key, directory.indexOf? key = table.indexOf? key := by
  intro table directory
  have known : Knows content.keyAt table.covered table := build_knows range content
  refine ⟨fun index => mem_build_covered, known.last, known.missing, ?_, ?_, ?_, fun key => rfl⟩
  · intro key index found
    exact known.keyAt?_of_indexOf? found
  · intro key index there
    obtain ⟨held, stands⟩ := known.keyAt?_eq_some_iff.mp there
    exact stands ▸ known.exists_indexOf? held
  · intro distinct
    refine ⟨?_, numbering distinct, ?_, known.indexOf?_numbering distinct⟩
    · intro key index
      constructor
      · intro found
        exact known.keyAt?_of_indexOf? found
      · intro there
        obtain ⟨held, stands⟩ := known.keyAt?_eq_some_iff.mp there
        exact stands ▸ known.indexOf?_of_distinct distinct held
    · intro index
      exact known.keyAt?_eq_some_iff.mpr ⟨index.property, rfl⟩

end KeyTable
end VirtualList
