import VirtualList.Proofs.Guarded
import VirtualList.Proofs.ItemsHistory
import VirtualList.Proofs.Placement

namespace VirtualList
namespace Guarded

theorem ofNoted_pure (value : α) : ofNoted (pure value) = pure value := rfl

-- Only the value that a run ends with is handed on, so nothing is asked of the others.
theorem ofNoted_bind {noted : Noted α} {next : α → Guarded β} {plain : α → Noted β}
    (agrees : next noted.value = ofNoted (plain noted.value)) :
    ofNoted noted >>= next = ofNoted (noted >>= plain) := by
  calc ofNoted noted >>= next
      = ExceptT.mk ⟨(next noted.value).run.value,
          noted.notices ++ (next noted.value).run.notices⟩ := rfl
    _ = ofNoted (noted >>= plain) := by
        rw [agrees]
        rfl

theorem sum_eq {left right : Nat} (fits : left + right ≤ maxIndex) :
    sum left right = pure (left + right) := if_pos fits

theorem difference_eq {left right : Nat} (le : right ≤ left) :
    difference left right = pure (left - right) := if_pos le

theorem requireSlot_eq {index size : Nat} (inside : index < size) :
    requireSlot index size = pure () := if_pos inside

theorem foldlM_ofNoted {guarded : σ → α → Guarded σ} {plain : σ → α → Noted σ}
    (keeps : σ → Prop) {steps : List α}
    (agrees : ∀ state, keeps state → ∀ a ∈ steps,
      guarded state a = ofNoted (plain state a) ∧ keeps (plain state a).value)
    {state : σ} (kept : keeps state) :
    steps.foldlM guarded state = ofNoted (steps.foldlM plain state) ∧
      keeps (steps.foldlM plain state).value := by
  induction steps generalizing state with
  | nil => exact ⟨rfl, kept⟩
  | cons a rest ih =>
    obtain ⟨here, after⟩ := agrees state kept a List.mem_cons_self
    have others : ∀ state, keeps state → ∀ b ∈ rest,
        guarded state b = ofNoted (plain state b) ∧ keeps (plain state b).value := by
      intro state kept b member
      exact agrees state kept b (List.mem_cons_of_mem a member)
    obtain ⟨onward, last⟩ := ih others after
    rw [List.foldlM_cons, List.foldlM_cons, here]
    exact ⟨ofNoted_bind onward, last⟩

theorem bisect_eq {guarded : Nat → Guarded Bool} {holds : Nat → Bool} {lo hi : Nat}
    (defined : ∀ n, lo ≤ n → n < hi → guarded n = pure (holds n)) :
    bisect guarded lo hi = pure (VirtualList.bisect holds lo hi) := by
  fun_induction VirtualList.bisect holds lo hi with
  | case1 lo hi active middle found ih =>
    have lower := ih fun n from_lo before => defined n from_lo (by omega)
    have known : guarded (lo + (hi - lo) / 2) = pure (holds middle) :=
      defined _ (by omega) (by omega)
    rw [bisect, if_pos active]
    simp only [known, pure_bind, found, if_true]
    exact lower
  | case2 lo hi active middle missed ih =>
    have upper := ih fun n after before => defined n (by omega) before
    have known : guarded (lo + (hi - lo) / 2) = pure (holds middle) :=
      defined _ (by omega) (by omega)
    rw [bisect, if_pos active]
    simp only [known, pure_bind, missed]
    exact upper
  | case3 lo hi done => rw [bisect, if_neg done]

section Rows

variable {α : Type} {list : SegmentList α} {segment : Segment α}

theorem stop_eq (member : segment ∈ list.toList) : stop segment = pure segment.stop := by
  have inside := (list.backToBack.bounds member).2.2
  exact sum_eq (Nat.le_trans inside list.fits)

theorem endsAfter_eq {n : Nat} (bound : n < list.segments.size) (index : Nat) :
    endsAfter list index n = pure (list.segments[n]?.all (index < ·.stop)) := by
  have member : list.segments[n] ∈ list.toList := Array.getElem_mem_toList bound
  rw [endsAfter, Array.getElem?_eq_getElem bound]
  simp only [stop_eq member, pure_bind, Option.all_some]

theorem place_eq (list : SegmentList α) (index : Nat) :
    place list index = pure (list.place index) :=
  bisect_eq fun _ _ bound => endsAfter_eq bound index

theorem find?_eq (list : SegmentList α) (index : Nat) :
    find? list index = pure (list.find? index) := by
  rw [find?, SegmentList.find?, place_eq, pure_bind]
  split
  · rfl
  · rfl

theorem place_slot {index : Nat} (bound : index < list.size) :
    requireSlot (list.place index) (list.segments.size + 1) = pure () :=
  requireSlot_eq (Nat.lt_succ_of_lt (SegmentList.place_lt bound))

theorem visit_eq {first last : Nat} (order : first ≤ last) (bound : last < list.size) :
    visit list first last = pure (list.overlapping first last) := by
  have started := Nat.lt_of_le_of_lt order bound
  simp only [visit, SegmentList.requireIndex_of_lt started, SegmentList.requireIndex_of_lt bound,
    ofFault, pure_bind, if_neg (Nat.not_lt.mpr order), place_eq, place_slot started]
  rfl

-- A guard does stop what the condition above leaves out.
example : (visit (SegmentList.empty : SegmentList Nat) 0 0).run.value =
    .error (.fault (.outOfBounds 0 0)) := rfl

end Rows

theorem answer_eq {segment : Segment ItemGroup} {index : Nat} (factory : Nat → UInt64)
    (holds : segment.contains index = true) :
    difference index segment.first >>= answer factory segment =
      pure (factory (index - segment.first)) := by
  obtain ⟨after, before⟩ := Segment.contains_iff.mp holds
  have inside : index - segment.first < segment.size := by
    simp only [Segment.stop] at before
    omega
  rw [difference_eq after, pure_bind]
  exact if_pos inside

theorem keyIn_eq {segment : Segment ItemGroup} {index : Nat}
    (holds : segment.contains index = true) : keyIn segment index = pure (segment.keyAt index) := by
  cases supplied : segment.value.key with
  | none => simp only [keyIn, Segment.keyAt, supplied]
  | some key =>
    have known := answer_eq key holds
    simp only [keyIn, Segment.keyAt, supplied]
    rw [← bind_assoc, known, pure_bind]

theorem keyAt_eq (content : Content) (index : Nat) :
    keyAt content index = pure (content.keyAt index) := by
  rw [keyAt, find?_eq, pure_bind, Content.keyAt]
  cases found : content.find? index with
  | none => rfl
  | some segment => exact keyIn_eq (SegmentList.contains_of_find? found)

theorem locate?_eq (content : Content) (index : Nat) :
    locate? content index = pure (content.locate? index) := by
  rw [locate?, find?_eq, pure_bind, Content.locate?]
  cases found : content.find? index with
  | none => rfl
  | some segment =>
    have after := (Segment.contains_iff.mp (SegmentList.contains_of_find? found)).1
    simp only [difference_eq after, pure_bind, Option.map_some]

theorem contentTypeAt_eq (content : Content) (index : Nat) :
    contentTypeAt content index = pure (content.contentTypeAt index) := by
  rw [contentTypeAt, find?_eq, pure_bind]
  cases found : content.find? index with
  | none =>
    have beyond := SegmentList.find?_eq_none_iff.mp found
    rw [(Content.answers_of_size_le beyond).2.2]
  | some segment =>
    have holds := SegmentList.contains_of_find? found
    have located : content.locate? index = some (index - segment.first, segment.value) := by
      rw [Content.locate?, found, Option.map_some]
    rw [Content.contentTypeAt_of_locate? located]
    cases labelled : segment.value.contentType with
    | none =>
      have after := (Segment.contains_iff.mp holds).1
      simp only [difference_eq after, pure_bind, labelled, Option.map_none]
    | some contentType =>
      have known := answer_eq contentType holds
      simp only [labelled, Option.map_some]
      rw [← bind_assoc, known, pure_bind]

section Tables

variable {table : KeyTable} {key : ItemKey} {index : Nat}

theorem enter_eq (room : index ∈ table.covered) :
    enter table key index = ofNoted (table.enter key index) := by
  have slot : index - table.start < table.size := by
    simp only [KeyTable.covered, IndexRange.mem_iff] at room
    omega
  have checked : difference index table.start >>= (requireSlot · table.size) = pure () := by
    have after : table.start ≤ index := room.1
    rw [difference_eq after, pure_bind, requireSlot_eq slot]
  calc enter table key index = ofNoted (table.enter key index >>= pure) := by
        apply ofNoted_bind
        rw [← bind_assoc, checked, pure_bind, ofNoted_pure]
    _ = ofNoted (table.enter key index) := by rw [bind_pure]

theorem enter_covered (table : KeyTable) (key : ItemKey) (index : Nat) :
    (table.enter key index).value.covered = table.covered := by
  simp only [KeyTable.covered, KeyTable.enter_start, KeyTable.enter_size]

theorem clip_eq {segment : Segment ItemGroup} (positive : 0 < segment.stop) (first last : Nat) :
    IndexRange.mk (max first segment.first) (min last (segment.stop - 1) + 1) =
      segment.clip first last := by
  have final : min last (segment.stop - 1) + 1 = min (last + 1) segment.stop := by omega
  rw [Segment.clip, final]

def enterOverlap (first last : Nat) (table : KeyTable) (segment : Segment ItemGroup) :
    Noted KeyTable :=
  (segment.clip first last).indices.foldlM
    (fun table index => table.enter (segment.keyAt index) index) table

theorem enterSegment_eq {content : Content} {segment : Segment ItemGroup} {first last : Nat}
    (member : segment ∈ content.toList) (room : IndexRange)
    (inside : ∀ index, first ≤ index → index ≤ last → index ∈ room) (table : KeyTable)
    (covers : table.covered = room) :
    enterSegment first last table segment = ofNoted (enterOverlap first last table segment) ∧
      (enterOverlap first last table segment).value.covered = room := by
  have bounds := content.backToBack.bounds member
  have positive : 1 ≤ segment.stop := by
    simp only [Segment.stop]
    omega
  rw [enterSegment, stop_eq member, pure_bind, difference_eq positive, pure_bind,
    clip_eq positive]
  refine foldlM_ofNoted (fun table : KeyTable => table.covered = room) ?_ covers
  intro table covers index visited
  obtain ⟨holds, after, before⟩ := Segment.mem_clip.mp (IndexRange.mem_indices.mp visited)
  have slot : index ∈ table.covered := covers ▸ inside index after before
  rw [keyIn_eq holds, pure_bind, enter_eq slot, enter_covered]
  exact ⟨rfl, covers⟩

theorem build_eq_walk {range : IndexRange} {content : Content}
    (order : range.start < min range.stop content.size) :
    KeyTable.build range content =
      (content.overlapping range.start (min range.stop content.size - 1)).foldlM
        (enterOverlap range.start (min range.stop content.size - 1))
        (.blank (range.clip content.size)) := by
  have nonempty := mt IndexRange.clip_isEmpty_iff.mp (Nat.not_le_of_lt order)
  rw [KeyTable.build, if_neg nonempty, KeyTable.cells, if_neg nonempty, foldlM_flatMap]
  simp only [List.foldlM_map]
  rfl

theorem walk_eq {content : Content} {room : IndexRange} {first last : Nat}
    (inside : ∀ index, first ≤ index → index ≤ last → index ∈ room) {table : KeyTable}
    (covers : table.covered = room) :
    (content.overlapping first last).foldlM (enterSegment first last) table =
      ofNoted ((content.overlapping first last).foldlM (enterOverlap first last) table) := by
  refine (foldlM_ofNoted (fun table : KeyTable => table.covered = room) ?_ covers).1
  intro table covers segment visited
  exact enterSegment_eq (SegmentList.mem_of_mem_overlapping visited) room inside table covers

theorem build_eq (range : IndexRange) (content : Content) :
    build range content = ofNoted (KeyTable.build range content) := by
  by_cases inverted : min range.stop content.size ≤ range.start
  · rw [KeyTable.build_of_inverted inverted, build, if_pos inverted]
    rfl
  · have order := Nat.lt_of_not_le inverted
    obtain ⟨positive, last, bound⟩ := IndexRange.clip_last order
    have inside : ∀ index, range.start ≤ index → index ≤ min range.stop content.size - 1 →
        index ∈ range.clip content.size := by
      intro index after before
      exact ⟨after, Nat.lt_of_le_sub_one positive before⟩
    have blank : (KeyTable.blank (range.clip content.size)).covered = range.clip content.size :=
      KeyTable.blank_covered (Nat.le_of_lt order)
    rw [build, if_neg inverted, difference_eq positive, pure_bind,
      difference_eq (Nat.le_of_lt order), pure_bind, visit_eq last bound, pure_bind,
      build_eq_walk order]
    exact walk_eq inside blank

theorem covered_eq (range : IndexRange) (content : Content) :
    covered (KeyTable.build range content).value =
      pure (KeyTable.build range content).value.covered := by
  have fits : (KeyTable.build range content).value.covered.stop ≤ maxIndex := by
    rcases Nat.lt_or_ge range.start (min range.stop content.size) with order | inverted
    · rw [KeyTable.build_covered_of_lt order]
      exact Nat.le_trans (Nat.min_le_right ..) content.fits
    · rw [KeyTable.build_covered_of_inverted inverted]
      exact Nat.zero_le _
  rw [covered, sum_eq fits]
  rfl

end Tables

theorem followWindow_eq (window : Window) (first : Nat) :
    followWindow window first = ofNoted (window.follow first) := by
  by_cases same : first = window.first
  · rw [followWindow, Window.follow, if_pos same, if_pos same]
    rfl
  · have asserted : window.shape.rangeAt first = .ok (window.shape.around first) :=
      if_pos window.nonempty
    rw [followWindow, Window.follow, if_neg same, if_neg same, asserted]
    by_cases kept : window.shape.around first = window.range
    · simp only [ofFault, pure_bind, kept, if_true]
      rfl
    · simp only [ofFault, pure_bind, kept, if_false]
      exact ofNoted_bind rfl

theorem ofWindow_eq (content : Content) (window : Window) :
    ofWindow content window = ofNoted (WindowedItems.ofWindow content window) := by
  rw [ofWindow, build_eq]
  exact ofNoted_bind rfl

theorem follow_eq (items : WindowedItems) (first : Nat) :
    follow items first = ofNoted (items.follow first) := by
  rw [follow, followWindow_eq]
  apply ofNoted_bind
  cases (items.window.follow first).value with
  | mk window moved =>
    cases moved with
    | false => rfl
    | true =>
      simp only [if_true, ofWindow_eq]
      exact ofNoted_bind (ofNoted_bind rfl)

theorem itemKeyAt_eq (items : WindowedItems) (index : Nat) :
    itemKeyAt items index = pure (items.keyAt index) := by
  rw [itemKeyAt, WindowedItems.keyAt]
  cases items.table.keyAt? index with
  | none => exact keyAt_eq items.content index
  | some key => rfl

theorem measured_eq (viewport : Viewport) (first : Nat) (offset : Offset) (key : Option ItemKey) :
    measured viewport first offset key = ofNoted (viewport.measured first offset key) := by
  rw [measured, followWindow_eq]
  exact ofNoted_bind rfl

theorem reanchor_eq (viewport : Viewport) (count : Nat) (find? : ItemKey → Option Nat) :
    reanchor viewport count find? = ofNoted (viewport.reanchor count find?) := by
  by_cases same : viewport.target count find? = viewport.first
  · simp only [reanchor, Viewport.reanchor, same, if_true]
    rfl
  · simp only [reanchor, Viewport.reanchor, same, if_false, followWindow_eq]
    exact ofNoted_bind (ofNoted_bind rfl)

-- Look-ups in a table, by key and by position, have no guard: a key that is not there and a slot
-- outside are answers of theirs.
theorem runs_to_end :
    (∀ content : Content,
      (∀ segment ∈ content.toList, stop segment = pure segment.stop) ∧
      (∀ index, find? content index = pure (content.find? index)) ∧
      (∀ index, locate? content index = pure (content.locate? index)) ∧
      (∀ index, keyAt content index = pure (content.keyAt index)) ∧
      (∀ index, contentTypeAt content index = pure (content.contentTypeAt index)) ∧
      ∀ range, build range content = ofNoted (KeyTable.build range content) ∧
        covered (KeyTable.build range content).value =
          pure (KeyTable.build range content).value.covered) ∧
    (∀ entries content, Content.ofEntries entries = .ok content →
      ∀ segment ∈ content.toList, ∃ entry ∈ entries,
        segment.value = entry.group ∧ segment.size = entry.count) ∧
    (∀ window first, followWindow window first = ofNoted (window.follow first)) ∧
    (∀ items : WindowedItems, items.Reached →
      (∀ first, follow items first = ofNoted (items.follow first)) ∧
      (∀ content, withContent items content = ofNoted (items.withContent content)) ∧
      (∀ index, itemKeyAt items index = pure (items.keyAt index)) ∧
      covered items.table = pure items.table.covered) ∧
    ∀ viewport : Viewport,
      (∀ first offset key,
        measured viewport first offset key = ofNoted (viewport.measured first offset key)) ∧
      (∀ first offset, measured viewport first offset none = ofNoted (viewport.jumpTo first offset)) ∧
      ∀ count find?, reanchor viewport count find? = ofNoted (viewport.reanchor count find?) := by
  refine ⟨?_, ?_, followWindow_eq, ?_, ?_⟩
  · intro content
    exact ⟨fun segment member => stop_eq member, find?_eq content, locate?_eq content,
      keyAt_eq content, contentTypeAt_eq content,
      fun range => ⟨build_eq range content, covered_eq range content⟩⟩
  · intro entries content built segment member
    exact Content.exists_entry built member
  · intro items path
    refine ⟨follow_eq items, fun content => ofWindow_eq content items.window, itemKeyAt_eq items, ?_⟩
    obtain ⟨content, shape, nonempty, first, rfl⟩ := WindowedItems.reached_fresh path
    exact covered_eq (shape.around first) content
  · intro viewport
    exact ⟨measured_eq viewport, fun first offset => measured_eq viewport first offset none,
      reanchor_eq viewport⟩

theorem runs_to_end_at_last_index :
    ∃ content items,
      Content.ofEntries [.keyed #[7, 8], .items (maxIndex - 2) none none] = .ok content ∧
      items = (WindowedItems.ofWindow content (.ofShape ⟨2, 1⟩ (by decide) maxIndex)).value ∧
      items.Reached ∧ content.size = maxIndex ∧
      (∀ segment ∈ content.toList, stop segment = pure segment.stop) ∧
      (∀ segment ∈ content.toList, ∃ entry ∈ [.keyed #[7, 8], .items (maxIndex - 2) none none],
        segment.value = Entry.group entry ∧ segment.size = Entry.count entry) ∧
      follow items 0 = ofNoted (items.follow 0) ∧
      covered items.table = pure items.table.covered := by
  obtain ⟨content, built⟩ := Content.exists_ofEntries
    (show Entry.total [.keyed #[7, 8], .items (maxIndex - 2) none none] ≤ maxIndex by decide)
  have path : (WindowedItems.ofWindow content (.ofShape ⟨2, 1⟩ (by decide) maxIndex)).value.Reached :=
    .ofWindow content (Window.ofShape_reached ⟨2, 1⟩ (by decide) maxIndex)
  obtain ⟨contents, descriptions, _, lists, _⟩ := runs_to_end
  obtain ⟨follows, _, _, covers⟩ := lists _ path
  exact ⟨content, _, built, rfl, path, Content.size_ofEntries built, (contents content).1,
    descriptions _ content built, follows 0, covers⟩

end Guarded
end VirtualList
