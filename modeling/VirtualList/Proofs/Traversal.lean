import VirtualList.KeyTable

namespace VirtualList

section Folds

variable {m : Type u → Type v} [Monad m]

theorem foldlM_congr {left right : σ → α → m σ} {steps : List α}
    (agrees : ∀ a ∈ steps, ∀ state, left state a = right state a) (state : σ) :
    steps.foldlM left state = steps.foldlM right state := by
  induction steps generalizing state with
  | nil => rfl
  | cons a rest ih =>
    have others : ∀ b ∈ rest, ∀ state, left state b = right state b := by
      intro b member
      exact agrees b (List.mem_cons_of_mem a member)
    rw [List.foldlM_cons, List.foldlM_cons, agrees a List.mem_cons_self]
    exact congrArg _ (funext fun after => ih others after)

theorem foldlM_flatMap [LawfulMonad m] {parts : List α} (split : α → List β)
    (step : σ → β → m σ) (state : σ) :
    (parts.flatMap split).foldlM step state =
      parts.foldlM (fun state part => (split part).foldlM step state) state := by
  induction parts generalizing state with
  | nil => rfl
  | cons part rest ih =>
    rw [List.flatMap_cons, List.foldlM_append, List.foldlM_cons]
    exact bind_congr fun after => ih after

theorem foldlM_hom [LawfulMonad m] {step : σ → α → m σ} {other : τ → α → m τ} (change : σ → τ)
    (agrees : ∀ state a, change <$> step state a = other (change state) a) (steps : List α)
    (state : σ) : change <$> steps.foldlM step state = steps.foldlM other (change state) := by
  induction steps generalizing state with
  | nil => exact map_pure change state
  | cons a rest ih =>
    rw [List.foldlM_cons, List.foldlM_cons, map_bind, ← agrees, bind_map_left]
    exact bind_congr fun after => ih after

end Folds

namespace BackToBack

theorem drop {segments : List (Segment α)} {start stop n : Nat} {segment : Segment α}
    (row : BackToBack start segments stop) (atPlace : segments[n]? = some segment) :
    BackToBack segment.first (segments.drop n) stop := by
  obtain ⟨inside, same⟩ := List.getElem?_eq_some_iff.mp atPlace
  rw [← List.take_append_drop n segments] at row
  obtain ⟨middle, before, after⟩ := append_iff.mp row
  rw [List.drop_eq_getElem_cons inside, same] at after ⊢
  obtain ⟨first, positive, rest⟩ := after
  exact ⟨rfl, positive, rest⟩

theorem takeWhile_clip_indices {segments : List (Segment α)} {start stop first last : Nat}
    (row : BackToBack start segments stop) (bound : last < stop) :
    (segments.takeWhile (·.first ≤ last)).flatMap
        (fun segment => (segment.clip first last).indices) =
      (IndexRange.mk (max first start) (last + 1)).indices := by
  -- A segment that ends before the walk starts contributes an inverted range, so the row may start
  -- anywhere.
  induction segments generalizing start with
  | nil =>
    have ended : start = stop := nil_iff.mp row
    rw [IndexRange.indices_eq_nil (by dsimp only; omega)]
    rfl
  | cons segment rest ih =>
    obtain ⟨atStart, positive, tail⟩ := row
    have grows : start < segment.stop := by simp only [Segment.stop]; omega
    by_cases early : segment.first ≤ last
    · rw [List.takeWhile_cons_of_pos (by simpa using early), List.flatMap_cons, ih tail]
      by_cases passed : segment.stop ≤ first
      · have nothing : (segment.clip first last).indices = [] :=
          IndexRange.indices_eq_nil (by simp only [Segment.clip]; omega)
        have same : max first segment.stop = max first start := by omega
        rw [nothing, List.nil_append, same]
      · by_cases final : last < segment.stop
        · have nothing : (IndexRange.mk (max first segment.stop) (last + 1)).indices = [] :=
            IndexRange.indices_eq_nil (by dsimp only; omega)
          have inner : min (last + 1) segment.stop = last + 1 := Nat.min_eq_left final
          rw [nothing, List.append_nil, Segment.clip, inner, atStart]
        · have inner : min (last + 1) segment.stop = segment.stop := by omega
          have meet : max first segment.stop = segment.stop := by omega
          rw [Segment.clip, inner, meet, atStart]
          exact IndexRange.indices_append (by omega) (by omega)
    · rw [List.takeWhile_cons_of_neg (by simpa using early),
        IndexRange.indices_eq_nil (by dsimp only; omega)]
      rfl

end BackToBack

namespace SegmentList

theorem mem_of_mem_overlapping {list : SegmentList α} {first last : Nat} {segment : Segment α}
    (member : segment ∈ list.overlapping first last) : segment ∈ list.toList := by
  rw [overlapping, startingBy_eq] at member
  exact List.mem_of_mem_drop ((List.takeWhile_prefix _).subset member)

theorem overlapping_clip_indices {list : SegmentList α} {first last : Nat} (order : first ≤ last)
    (bound : last < list.size) :
    (list.overlapping first last).flatMap (fun segment => (segment.clip first last).indices) =
      (IndexRange.mk first (last + 1)).indices := by
  obtain ⟨segment, atPlace, holds⟩ := exists_atPlace (Nat.lt_of_le_of_lt order bound)
  have started : segment.first ≤ first := (Segment.contains_iff.mp holds).1
  have suffix : BackToBack segment.first (list.toList.drop (list.place first)) list.size :=
    list.backToBack.drop atPlace
  rw [overlapping, startingBy_eq, suffix.takeWhile_clip_indices bound, Nat.max_eq_left started]

end SegmentList

namespace KeyTable

theorem cells_of_inverted {range : IndexRange} {content : Content}
    (inverted : min range.stop content.size ≤ range.start) : cells range content = [] := by
  exact if_pos (IndexRange.clip_isEmpty_iff.mpr inverted)

theorem cells_indices (range : IndexRange) (content : Content) :
    (cells range content).map Prod.snd = (range.clip content.size).indices := by
  by_cases inverted : (range.clip content.size).stop ≤ (range.clip content.size).start
  · rw [cells_of_inverted inverted, IndexRange.indices_eq_nil inverted, List.map_nil]
  · have clipped : (range.clip content.size).stop ≤ content.size := Nat.min_le_right ..
    have order : (range.clip content.size).start ≤ (range.clip content.size).stop - 1 := by omega
    have bound : (range.clip content.size).stop - 1 < content.size := by omega
    have last : (range.clip content.size).stop - 1 + 1 = (range.clip content.size).stop := by omega
    have tiled := SegmentList.overlapping_clip_indices order bound
    rw [last] at tiled
    rw [← tiled]
    simp [cells, IndexRange.isEmpty, inverted, List.map_flatMap, List.map_map, Function.comp_def]

theorem mem_clip_of_mem_cells {range : IndexRange} {content : Content}
    {cell : Segment ItemGroup × Nat} (member : cell ∈ cells range content) :
    cell.2 ∈ range.clip content.size := by
  have listed : cell.2 ∈ (cells range content).map Prod.snd := List.mem_map_of_mem member
  rw [cells_indices] at listed
  exact IndexRange.mem_indices.mp listed

-- The walk comes to an item by way of the segment that a look-up by position finds.
theorem find?_of_mem_cells {range : IndexRange} {content : Content} {segment : Segment ItemGroup}
    {index : Nat} (member : (segment, index) ∈ cells range content) :
    content.find? index = some segment := by
  unfold cells at member
  dsimp only at member
  split at member
  · cases member
  · obtain ⟨visited, overlaps, taken⟩ := List.mem_flatMap.mp member
    obtain ⟨place, inside, same⟩ := List.mem_map.mp taken
    cases same
    have holds := Segment.mem_clip.mp (IndexRange.mem_indices.mp inside)
    exact SegmentList.find?_eq_some_iff.mpr
      ⟨SegmentList.mem_of_mem_overlapping overlaps, holds.1⟩

end KeyTable
end VirtualList
