import Mathlib.Data.List.Basic
import VirtualList.Proofs.Visiting

namespace VirtualList

structure Question where
  segment : Segment ItemGroup
  inner : Nat

namespace Question

def index (question : Question) : Nat := question.segment.first + question.inner

end Question

structure Filling where
  table : KeyTable
  asked : List Question

def Segment.questionAt? (segment : Segment ItemGroup) (index : Nat) : Option Question :=
  segment.value.key.map fun _ => ⟨segment, index - segment.first⟩

namespace Filling

def enter (filling : Filling) (segment : Segment ItemGroup) (index : Nat) : Noted Filling := do
  let table ← filling.table.enter (segment.keyAt index) index
  return ⟨table, filling.asked ++ (segment.questionAt? index).toList⟩

theorem foldlM_enter (visited : List (Segment ItemGroup × Nat)) (table : KeyTable)
    (asked : List Question) :
    visited.foldlM (fun filling cell => Filling.enter filling cell.1 cell.2) ⟨table, asked⟩ = (do
      let filled ← visited.foldlM (fun table cell =>
        KeyTable.enter table (cell.1.keyAt cell.2) cell.2) table
      return ⟨filled, asked ++ visited.filterMap fun cell => cell.1.questionAt? cell.2⟩) := by
  induction visited generalizing table asked with
  | nil => simp
  | cons cell rest ih =>
    have asks : (cell :: rest).filterMap (fun cell => cell.1.questionAt? cell.2) =
        (cell.1.questionAt? cell.2).toList ++
          rest.filterMap fun cell => cell.1.questionAt? cell.2 := by
      cases here : cell.1.questionAt? cell.2 with
      | none => simp [here]
      | some question => simp [here]
    have entered : (Filling.mk table asked).enter cell.1 cell.2 = (do
        let table ← table.enter (cell.1.keyAt cell.2) cell.2
        return ⟨table, asked ++ (cell.1.questionAt? cell.2).toList⟩) := rfl
    rw [List.foldlM_cons, List.foldlM_cons, entered, asks]
    simp only [bind_assoc, pure_bind, ih, List.append_assoc]

end Filling

def Content.isKeyed (content : Content) (index : Nat) : Bool :=
  (content.find? index).any (·.value.key.isSome)

def KeyTable.questions (range : IndexRange) (content : Content) : List Question :=
  (cells range content).filterMap fun cell => cell.1.questionAt? cell.2

namespace Guarded

-- The two loops of `build`, with any step in place of the one that enters an item.

def overSegment (step : σ → Segment ItemGroup → Nat → Guarded σ) (first last : Nat) (state : σ)
    (segment : Segment ItemGroup) : Guarded σ := do
  let final ← difference (← stop segment) 1
  (IndexRange.mk (max first segment.first) (min last final + 1)).indices.foldlM
    (fun state index => step state segment index) state

def overItems (step : σ → Segment ItemGroup → Nat → Guarded σ) (range : IndexRange)
    (content : Content) (state : σ) : Guarded σ := do
  let last ← difference (min range.stop content.size) 1
  forEach content range.start last (overSegment step range.start last) state

def enterItem (table : KeyTable) (segment : Segment ItemGroup) (index : Nat) : Guarded KeyTable := do
  enter table (← keyIn segment index) index

-- `keyIn` and `enterItem` with the questions they put, noted where the factory is asked.

def keyAsked (segment : Segment ItemGroup) (index : Nat) : Guarded (ItemKey × List Question) :=
  match segment.value.key with
  | some key => do
    let inner ← difference index segment.first
    let id ← answer key segment inner
    return (.authored id, [⟨segment, inner⟩])
  | none => return (.positional index, [])

def enterAsking (filling : Filling) (segment : Segment ItemGroup) (index : Nat) :
    Guarded Filling := do
  let (key, asked) ← keyAsked segment index
  return ⟨← enter filling.table key index, filling.asked ++ asked⟩

def fill (range : IndexRange) (content : Content) : Guarded Filling :=
  if min range.stop content.size ≤ range.start then pure ⟨.empty, []⟩
  else overItems enterAsking range content ⟨.blank (range.clip content.size), []⟩

section Loops

variable {σ : Type} {range : IndexRange} {content : Content}

theorem overSegment_eq (step : σ → Segment ItemGroup → Nat → Guarded σ) (first last : Nat)
    (state : σ) {segment : Segment ItemGroup} (member : segment ∈ content.toList) :
    overSegment step first last state segment =
      (segment.clip first last).indices.foldlM (fun state index => step state segment index)
        state := by
  have bounds := content.backToBack.bounds member
  have positive : 1 ≤ segment.stop := by
    simp only [Segment.stop]
    omega
  rw [overSegment, stop_eq member, pure_bind, difference_eq positive, pure_bind, clip_eq positive]

theorem overItems_eq (order : range.start < min range.stop content.size)
    (step : σ → Segment ItemGroup → Nat → Guarded σ) (state : σ) :
    overItems step range content state =
      (KeyTable.cells range content).foldlM (fun state (segment, index) => step state segment index)
        state := by
  obtain ⟨positive, last, bound⟩ := IndexRange.clip_last order
  have nonempty := mt IndexRange.clip_isEmpty_iff.mp (Nat.not_le_of_lt order)
  rw [overItems, difference_eq positive, pure_bind, forEach_eq, SegmentList.visit_eq_ok last bound,
    KeyTable.cells, if_neg nonempty, foldlM_flatMap]
  apply foldlM_congr
  intro segment visited state
  rw [overSegment_eq step _ _ _ (SegmentList.mem_of_mem_overlapping visited), List.foldlM_map]
  rfl

theorem build_eq_overItems (order : range.start < min range.stop content.size) :
    build range content = overItems enterItem range content (.blank (range.clip content.size)) := by
  obtain ⟨positive, last, bound⟩ := IndexRange.clip_last order
  rw [build, if_neg (Nat.not_le_of_lt order), overItems, difference_eq positive, pure_bind,
    difference_eq (Nat.le_of_lt order), pure_bind, pure_bind, visit_eq last bound, pure_bind,
    forEach_eq, SegmentList.visit_eq_ok last bound]
  rfl

end Loops

-- Also where the segment does not hold the item, so that the two trap alike.
theorem keyAsked_key (segment : Segment ItemGroup) (index : Nat) :
    Prod.fst <$> keyAsked segment index = keyIn segment index := by
  unfold keyAsked keyIn
  cases segment.value.key with
  | none => rfl
  | some key => simp only [map_bind, map_pure]

theorem enterAsking_table (filling : Filling) (segment : Segment ItemGroup) (index : Nat) :
    Filling.table <$> enterAsking filling segment index =
      enterItem filling.table segment index := by
  rw [enterItem, ← keyAsked_key, bind_map_left, enterAsking, map_bind]
  simp only [map_bind, map_pure, bind_pure]

theorem fill_table (range : IndexRange) (content : Content) :
    Filling.table <$> fill range content = build range content := by
  by_cases inverted : min range.stop content.size ≤ range.start
  · rw [fill, build, if_pos inverted, if_pos inverted, map_pure]
  · have order := Nat.lt_of_not_le inverted
    rw [fill, if_neg inverted, build_eq_overItems order, overItems_eq order, overItems_eq order]
    apply foldlM_hom
    intro filling cell
    exact enterAsking_table filling cell.1 cell.2

section Asking

variable {segment : Segment ItemGroup} {index : Nat}

theorem keyAsked_eq (holds : segment.contains index = true) :
    keyAsked segment index = pure (segment.keyAt index, (segment.questionAt? index).toList) := by
  cases supplied : segment.value.key with
  | none =>
    simp only [keyAsked, Segment.keyAt, Segment.questionAt?, supplied]
    rfl
  | some key =>
    have after := (Segment.contains_iff.mp holds).1
    have known := answer_eq key holds
    rw [difference_eq after, pure_bind] at known
    simp only [keyAsked, Segment.keyAt, Segment.questionAt?, supplied, difference_eq after, pure_bind,
      known]
    rfl

theorem enterAsking_eq {filling : Filling} (room : index ∈ filling.table.covered)
    (holds : segment.contains index = true) :
    enterAsking filling segment index = ofNoted (filling.enter segment index) := by
  simp only [enterAsking, keyAsked_eq holds, pure_bind, enter_eq room]
  exact ofNoted_bind rfl

end Asking

theorem fill_eq (range : IndexRange) (content : Content) :
    fill range content = ofNoted (do
      return ⟨← KeyTable.build range content, KeyTable.questions range content⟩) := by
  by_cases inverted : min range.stop content.size ≤ range.start
  · rw [fill, if_pos inverted, KeyTable.build_of_inverted inverted, KeyTable.questions,
      KeyTable.cells_of_inverted inverted]
    rfl
  · have order := Nat.lt_of_not_le inverted
    have blank : (KeyTable.blank (range.clip content.size)).covered = range.clip content.size :=
      KeyTable.blank_covered (Nat.le_of_lt order)
    have nonempty := mt IndexRange.clip_isEmpty_iff.mp inverted
    -- The table goes on covering the range, so that the next item has its slot.
    have agrees : ∀ filling : Filling, filling.table.covered = range.clip content.size →
        ∀ cell ∈ KeyTable.cells range content,
          enterAsking filling cell.1 cell.2 = ofNoted (filling.enter cell.1 cell.2) ∧
            (filling.enter cell.1 cell.2).value.table.covered = range.clip content.size := by
      intro filling covers cell visited
      have holds := SegmentList.contains_of_find? (KeyTable.find?_of_mem_cells visited)
      have room : cell.2 ∈ filling.table.covered :=
        covers.symm ▸ KeyTable.mem_clip_of_mem_cells visited
      exact ⟨enterAsking_eq room holds, (enter_covered filling.table _ _).trans covers⟩
    rw [fill, if_neg inverted, overItems_eq order, KeyTable.build, if_neg nonempty]
    exact (foldlM_ofNoted _ agrees blank).1.trans (congrArg ofNoted (Filling.foldlM_enter _ _ _))

end Guarded

namespace KeyTable

variable {range : IndexRange} {content : Content} {segment : Segment ItemGroup}
  {question : Question} {index : Nat}

-- An item before the segment would be asked about as its first one.
theorem eq_of_questionAt? (holds : segment.contains index = true)
    (asked : segment.questionAt? index = some question) :
    question.segment = segment ∧ question.index = index ∧
      ∃ key, segment.value.key = some key := by
  obtain ⟨key, supplied, rfl⟩ := Option.map_eq_some_iff.mp asked
  have after := (Segment.contains_iff.mp holds).1
  exact ⟨rfl, Nat.add_sub_of_le after, key, supplied⟩

theorem questionAt?_index (found : content.find? index = some segment) :
    (segment.questionAt? index).map Question.index = Option.guard content.isKeyed index := by
  have holds := SegmentList.contains_of_find? found
  cases asked : segment.questionAt? index with
  | none =>
    have without : segment.value.key = none := Option.map_eq_none_iff.mp asked
    simp [Option.guard, Content.isKeyed, found, without]
  | some question =>
    obtain ⟨_, same, key, supplied⟩ := eq_of_questionAt? holds asked
    simp [Option.guard, Content.isKeyed, found, supplied, same]

theorem questions_index (range : IndexRange) (content : Content) :
    (questions range content).map Question.index =
      (range.clip content.size).indices.filter content.isKeyed := by
  have each : ∀ cell ∈ cells range content,
      (cell.1.questionAt? cell.2).map Question.index = Option.guard content.isKeyed cell.2 := by
    intro cell visited
    exact questionAt?_index (find?_of_mem_cells visited)
  calc (questions range content).map Question.index
      = (cells range content).filterMap fun cell =>
          (cell.1.questionAt? cell.2).map Question.index := List.map_filterMap
    _ = (cells range content).filterMap (Option.guard content.isKeyed ∘ Prod.snd) :=
        List.filterMap_congr each
    _ = ((cells range content).map Prod.snd).filterMap (Option.guard content.isKeyed) :=
        List.filterMap_map.symm
    _ = (range.clip content.size).indices.filter content.isKeyed := by
        rw [cells_indices, List.filterMap_eq_filter]

theorem of_mem_questions (member : question ∈ questions range content) :
    content.find? question.index = some question.segment ∧
      question.index ∈ range.clip content.size ∧ ∃ key, question.segment.value.key = some key := by
  obtain ⟨⟨segment, index⟩, visited, asked⟩ := List.mem_filterMap.mp member
  have found := find?_of_mem_cells visited
  obtain ⟨rfl, same, key, supplied⟩ :=
    eq_of_questionAt? (SegmentList.contains_of_find? found) asked
  rw [same]
  exact ⟨found, mem_clip_of_mem_cells visited, key, supplied⟩

-- The loops come past each item of the range once and in order, by way of its own segment, and a key
-- factory is asked at its own items and at no other time: the cost is that of the range.
theorem walk_exact (order : range.start < min range.stop content.size) :
    let stop := min range.stop content.size
    let walk := List.range' range.start (stop - range.start)
    Guarded.build range content =
      Guarded.overItems Guarded.enterItem range content (.blank (range.clip content.size)) ∧
    (∀ {σ : Type} (step : σ → Segment ItemGroup → Nat → Guarded σ) (state : σ),
      Guarded.overItems step range content state =
        (cells range content).foldlM (fun state (segment, index) => step state segment index)
          state) ∧
    (cells range content).map Prod.snd = walk ∧
    (∀ segment index, (segment, index) ∈ cells range content →
      segment.contains index = true ∧ content.segmentAt index = .ok segment) ∧
    Filling.table <$> Guarded.fill range content = Guarded.build range content ∧
    ∃ asked : List Question,
      Guarded.fill range content = Guarded.ofNoted (do return ⟨← build range content, asked⟩) ∧
      asked.map Question.index = walk.filter content.isKeyed ∧
      (∀ question ∈ asked, content.segmentAt question.index = .ok question.segment ∧
        question.inner < question.segment.size ∧ ∃ key, question.segment.value.key = some key) ∧
      asked.length ≤ stop - range.start ∧
      ∀ question ∈ asked, question.segment.meets range.start (stop - 1) = true := by
  intro stop walk
  have filled := Guarded.fill_eq range content
  have places := questions_index range content
  refine ⟨Guarded.build_eq_overItems order, Guarded.overItems_eq order, cells_indices range content,
    ?_, Guarded.fill_table range content, questions range content, filled, places, ?_, ?_, ?_⟩
  · intro segment index visited
    have found := find?_of_mem_cells visited
    exact ⟨SegmentList.contains_of_find? found, SegmentList.segmentAt_of_find? found⟩
  · intro question member
    obtain ⟨found, _, supplied⟩ := of_mem_questions member
    have holds := SegmentList.contains_of_find? found
    have inside := (Segment.contains_iff.mp holds).2
    exact ⟨SegmentList.segmentAt_of_find? found, Nat.lt_of_add_lt_add_left inside, supplied⟩
  · have asked := congrArg List.length places
    rw [List.length_map] at asked
    rw [asked]
    exact (List.length_filter_le _ _).trans (Nat.le_of_eq List.length_range')
  · intro question member
    obtain ⟨found, inside, _⟩ := of_mem_questions member
    have holds := SegmentList.contains_of_find? found
    exact Segment.meets_iff.mpr ⟨question.index, holds, inside.1, Nat.le_sub_one_of_lt inside.2⟩

theorem walk_exact_in_full_list :
    ∃ content, Content.ofEntries [.items 3 (some Nat.toUInt64) none, .items 2 none none,
        .keyed #[7, 8, 9], .items (maxIndex - 8) (some Nat.toUInt64) none] = .ok content ∧
      1 < min 7 content.size ∧ (cells ⟨1, 7⟩ content).map Prod.snd = [1, 2, 3, 4, 5, 6] ∧
      ∃ asked, Guarded.fill ⟨1, 7⟩ content =
          Guarded.ofNoted (do return ⟨← build ⟨1, 7⟩ content, asked⟩) ∧
        asked.map Question.index = [1, 2, 5, 6] ∧ asked.length ≤ 6 := by
  obtain ⟨content, built⟩ := Content.exists_ofEntries
    (show Entry.total [.items 3 (some Nat.toUInt64) none, .items 2 none none,
        .keyed #[7, 8, 9], .items (maxIndex - 8) (some Nat.toUInt64) none] ≤ maxIndex by decide)
  have size : content.size = maxIndex := (Content.size_ofEntries built).trans (by decide)
  have order : (IndexRange.mk 1 7).start < min (IndexRange.mk 1 7).stop content.size := by
    rw [size]
    decide
  have stop : min 7 content.size = 7 := by rw [size]; decide
  have keyed (index : Nat) : content.isKeyed index = (content.locate? index).any (·.2.key.isSome) := by
    rw [Content.isKeyed, Content.locate?, Option.any_map]
  obtain ⟨_, _, indices, _, _, asked, filled, places, _, few, _⟩ :=
    walk_exact order
  refine ⟨content, built, order, ?_, asked, filled, ?_, ?_⟩
  · rw [indices, stop]
    rfl
  · rw [places, stop, funext keyed]
    simp only [Content.locate?_ofEntries built]
    decide
  · rw [stop] at few
    exact few

end KeyTable
end VirtualList
