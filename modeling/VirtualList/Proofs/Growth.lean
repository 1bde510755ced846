import VirtualList.Proofs.Layout

namespace VirtualList
namespace SegmentList

structure Extends (list : SegmentList α) (added : List (Nat × α)) (grown : SegmentList α) :
    Prop where
  pieces : grown.pieces = list.pieces ++ added
  size : list.size ≤ grown.size
  found : ∀ index < list.size, grown.find? index = list.find? index

namespace Extends

theorem refl (list : SegmentList α) : Extends list [] list :=
  ⟨(List.append_nil _).symm, Nat.le_refl _, fun _ _ => rfl⟩

theorem trans {list middle grown : SegmentList α} {left right : List (Nat × α)}
    (before : Extends list left middle) (after : Extends middle right grown) :
    Extends list (left ++ right) grown := by
  refine ⟨?_, Nat.le_trans before.size after.size, ?_⟩
  · rw [after.pieces, before.pieces, List.append_assoc]
  · intro index bound
    rw [after.found index (Nat.lt_of_lt_of_le bound before.size), before.found index bound]

theorem segmentAt {list grown : SegmentList α} {added : List (Nat × α)}
    (grew : Extends list added grown) {index : Nat} (bound : index < list.size) :
    grown.segmentAt index = list.segmentAt index := by
  have found := grew.found index bound
  cases held : list.find? index with
  | none => exact absurd bound (Nat.not_lt_of_le (find?_eq_none_iff.mp held))
  | some segment =>
    rw [held] at found
    simp only [SegmentList.segmentAt, held, found]

end Extends

def appendAll (list : SegmentList α) (pieces : List (Nat × α)) : Except Fault (SegmentList α) :=
  pieces.foldlM (fun list (count, value) => list.append count value) list

theorem appendAll_cons {list middle : SegmentList α} {count : Nat} {value : α}
    (accepted : list.append count value = .ok middle) (rest : List (Nat × α)) :
    list.appendAll ((count, value) :: rest) = middle.appendAll rest := by
  simp only [appendAll, List.foldlM_cons, accepted]
  rfl

def rowFrom (start : Nat) : List (Nat × α) → List (Segment α)
  | [] => []
  | (count, value) :: rest => ⟨start, count, value⟩ :: rowFrom (start + count) rest

theorem exists_appendAll (list : SegmentList α) (pieces : List (Nat × α))
    (positive : ∀ piece ∈ pieces, 0 < piece.1)
    (fits : list.size + (pieces.map Prod.fst).sum ≤ maxIndex) :
    ∃ grown, list.appendAll pieces = .ok grown ∧
      grown.size = list.size + (pieces.map Prod.fst).sum ∧
      grown.toList = list.toList ++ rowFrom list.size pieces := by
  induction pieces generalizing list with
  | nil => exact ⟨list, rfl, rfl, (List.append_nil _).symm⟩
  | cons piece rest ih =>
    obtain ⟨count, value⟩ := piece
    rw [List.map_cons, List.sum_cons, ← Nat.add_assoc] at fits
    obtain ⟨middle, first⟩ := exists_append (positive _ List.mem_cons_self)
      (Nat.le_trans (Nat.le_add_right ..) fits) value
    obtain ⟨_, size, segments⟩ := append_eq_ok_iff.mp first
    have others : ∀ piece ∈ rest, 0 < piece.1 := by
      intro piece member
      exact positive piece (List.mem_cons_of_mem _ member)
    obtain ⟨grown, appended, whole, row⟩ := ih middle others (size ▸ fits)
    refine ⟨grown, ?_, ?_, ?_⟩
    · rw [appendAll_cons first, appended]
    · rw [whole, size, List.map_cons, List.sum_cons, Nat.add_assoc]
    · simp [row, segments, size, rowFrom]

theorem append_extends {list grown : SegmentList α} {count : Nat} {value : α}
    (accepted : list.append count value = .ok grown) : Extends list [(count, value)] grown := by
  obtain ⟨_, size, segments⟩ := append_eq_ok_iff.mp accepted
  refine ⟨?_, ?_, ?_⟩
  · rw [pieces, segments, List.map_append]
    rfl
  · rw [size]
    exact Nat.le_add_right ..
  · intro index bound
    rw [find?_of_append accepted, if_pos bound]

end SegmentList

-- A list as it stands between two writes: its segments and its size need not agree.
structure Draft (α : Type u) where
  segments : Array (Segment α)
  size : Nat

namespace Draft

def ofList (list : SegmentList α) : Draft α := ⟨list.segments, list.size⟩

-- The check comes before the first write. The new size is formed after it, so that a list that
-- cannot hold the items has the segment already when they are refused.
def append (draft : Draft α) (count : Nat) (value : α) : Draft α × Option Fault :=
  if count = 0 then (draft, some .emptySegment)
  else
    let placed := { draft with segments := draft.segments.push ⟨draft.size, count, value⟩ }
    if draft.size + count ≤ maxIndex then ({ placed with size := draft.size + count }, none)
    else (placed, some .tooManyItems)

def attempts (draft : Draft α) : List (Nat × α) → Draft α × List (Option Fault)
  | [] => (draft, [])
  | (count, value) :: rest =>
    let (next, fault) := draft.append count value
    let (last, faults) := next.attempts rest
    (last, fault :: faults)

def accepted (pieces : List (Nat × α)) : List (Nat × α) := pieces.filter (0 < ·.1)

def refusals (pieces : List (Nat × α)) : List (Option Fault) :=
  pieces.map fun (count, _) => if count = 0 then some .emptySegment else none

theorem append_zero (draft : Draft α) (value : α) :
    draft.append 0 value = (draft, some .emptySegment) := rfl

theorem attempts_cons (draft : Draft α) (count : Nat) (value : α) (rest : List (Nat × α)) :
    draft.attempts ((count, value) :: rest) =
      (((draft.append count value).1.attempts rest).1,
        (draft.append count value).2 :: ((draft.append count value).1.attempts rest).2) := rfl

theorem append_ofList {list grown : SegmentList α} {count : Nat} {value : α}
    (accepted : list.append count value = .ok grown) :
    (ofList list).append count value = (ofList grown, none) := by
  obtain ⟨positive, size, segments⟩ := SegmentList.append_eq_ok_iff.mp accepted
  have fits : list.size + count ≤ maxIndex := size ▸ grown.fits
  have placed : grown.segments = list.segments.push ⟨list.size, count, value⟩ := by
    apply Array.toList_inj.mp
    rw [Array.toList_push]
    exact segments
  simp [append, ofList, Nat.ne_of_gt positive, fits, placed, size]

theorem append_full {draft : Draft α} {count : Nat} (positive : 0 < count)
    (full : maxIndex < draft.size + count) (value : α) :
    (draft.append count value).2 = some .tooManyItems := by
  simp [append, Nat.ne_of_gt positive, Nat.not_le_of_lt full]

theorem append_eq_none_iff {draft : Draft α} {count : Nat} (positive : 0 < count) (value : α) :
    (draft.append count value).2 = none ↔ draft.size + count ≤ maxIndex := by
  rcases Nat.lt_or_ge maxIndex (draft.size + count) with full | fits
  · simp [append_full positive full, Nat.not_le_of_lt full]
  · simp [append, Nat.ne_of_gt positive, fits]

theorem append_kept (draft : Draft α) (count : Nat) (value : α) :
    draft.segments.toList <+: (draft.append count value).1.segments.toList := by
  unfold append
  split
  · exact List.prefix_rfl
  · dsimp only
    split
    · rw [Array.toList_push]
      exact List.prefix_append ..
    · rw [Array.toList_push]
      exact List.prefix_append ..

theorem attempts_kept (draft : Draft α) (pieces : List (Nat × α)) :
    draft.segments.toList <+: (draft.attempts pieces).1.segments.toList := by
  induction pieces generalizing draft with
  | nil => exact List.prefix_rfl
  | cons piece rest ih =>
    obtain ⟨count, value⟩ := piece
    exact (append_kept draft count value).trans (ih (draft.append count value).1)

theorem attempts_extends {list : SegmentList α} {pieces : List (Nat × α)}
    (fits : some .tooManyItems ∉ ((ofList list).attempts pieces).2) :
    ∃ grown, (ofList list).attempts pieces = (ofList grown, refusals pieces) ∧
      list.appendAll (accepted pieces) = .ok grown ∧
      SegmentList.Extends list (accepted pieces) grown := by
  -- What an attempt leaves is a list again, since none of them goes past the last position.
  induction pieces generalizing list with
  | nil => exact ⟨list, rfl, rfl, .refl list⟩
  | cons piece rest ih =>
    obtain ⟨count, value⟩ := piece
    rw [attempts_cons, List.mem_cons, not_or] at fits
    rcases Nat.eq_zero_or_pos count with rfl | positive
    · rw [append_zero] at fits
      obtain ⟨grown, ran, appended, grew⟩ := ih fits.2
      refine ⟨grown, ?_, appended, grew⟩
      rw [attempts_cons, append_zero, ran]
      rfl
    · have room : list.size + count ≤ maxIndex := by
        apply Nat.le_of_not_lt
        intro full
        exact fits.1 (append_full positive full value).symm
      obtain ⟨middle, first⟩ := SegmentList.exists_append positive room value
      have placed := append_ofList first
      rw [placed] at fits
      obtain ⟨grown, ran, appended, grew⟩ := ih fits.2
      have kept : accepted ((count, value) :: rest) = (count, value) :: accepted rest :=
        List.filter_cons_of_pos (decide_eq_true positive)
      have none : refusals ((count, value) :: rest) = none :: refusals rest := by
        simp [refusals, Nat.ne_of_gt positive]
      refine ⟨grown, ?_, ?_, ?_⟩
      · rw [attempts_cons, placed, ran, none]
      · rw [kept, SegmentList.appendAll_cons first]
        exact appended
      · rw [kept]
        exact (SegmentList.append_extends first).trans grew

end Draft

-- A copy takes the next free place.
abbrev Shelf (α : Type u) := List (Draft α)

namespace Shelf

inductive Event (α : Type u) where
  | append (place count : Nat) (value : α)
  | copy (place : Nat)

def Event.pieceAt (n : Nat) : Event α → Option (Nat × α)
  | append place count value => if place = n then some (count, value) else none
  | copy _ => none

def step (shelf : Shelf α) : Event α → Shelf α
  | .append place count value => shelf.modify place fun draft => (draft.append count value).1
  | .copy place => shelf ++ shelf[place]?.toList

def run (shelf : Shelf α) (events : List (Event α)) : Shelf α := events.foldl step shelf

variable {shelf : Shelf α} {n : Nat}

theorem step_length_le (shelf : Shelf α) (event : Event α) :
    shelf.length ≤ (shelf.step event).length := by
  cases event with
  | append place count value => simp [step]
  | copy place => simp [step]

theorem step_getElem? (held : n < shelf.length) (event : Event α) :
    (shelf.step event)[n]? =
      shelf[n]?.map fun draft => (draft.attempts (event.pieceAt n).toList).1 := by
  cases event with
  | append place count value =>
    by_cases here : place = n
    · simp [step, Event.pieceAt, here, Draft.attempts]
    · simp [step, Event.pieceAt, here, Draft.attempts]
  | copy place => simp [step, Event.pieceAt, Draft.attempts, List.getElem?_append_left held]

theorem run_getElem? (held : n < shelf.length) (events : List (Event α)) :
    (shelf.run events)[n]? =
      shelf[n]?.map fun draft => (draft.attempts (events.filterMap (·.pieceAt n))).1 := by
  induction events generalizing shelf with
  | nil => simp [run, Draft.attempts]
  | cons event rest ih =>
    have next : n < (shelf.step event).length :=
      Nat.lt_of_lt_of_le held (step_length_le shelf event)
    have remaining := ih next
    rw [step_getElem? held] at remaining
    rw [run, List.foldl_cons]
    refine remaining.trans ?_
    cases piece : event.pieceAt n with
    | none => simp [piece, Draft.attempts]
    | some piece => simp [piece, Draft.attempts, Function.comp_def]

theorem copy_apart (draft : Draft α) (events : List (Event α)) :
    (run [draft] (.copy 0 :: events))[0]? =
        some (draft.attempts (events.filterMap (·.pieceAt 0))).1 ∧
      (run [draft] (.copy 0 :: events))[1]? =
        some (draft.attempts (events.filterMap (·.pieceAt 1))).1 := by
  have copied : run [draft] (.copy 0 :: events) = run [draft, draft] events := rfl
  rw [copied]
  constructor
  · exact run_getElem? (by simp) events
  · exact run_getElem? (by simp) events

end Shelf

namespace SegmentList

-- An attempt is refused for want of items or of room only, whatever was refused before it. The list
-- holds the accepted runs in their order, and no attempts on it or on a copy change that.
theorem attempts_exact (pieces : List (Nat × α)) :
    let made := (Draft.ofList empty).attempts pieces
    (∀ (list : SegmentList α) (value : α), list.append 0 value = .error .emptySegment) ∧
    (∀ (list : SegmentList α) (count : Nat) (value : α), 0 < count →
      ((∃ grown, list.append count value = .ok grown ∧
          (Draft.ofList list).append count value = (.ofList grown, none)) ↔
        list.size + count ≤ maxIndex)) ∧
    (∀ (draft : Draft α) (value : α), draft.append 0 value = (draft, some .emptySegment)) ∧
    (∀ (draft : Draft α) (count : Nat) (value : α), 0 < count →
      ((draft.append count value).2 = none ↔ draft.size + count ≤ maxIndex)) ∧
    (∀ (draft : Draft α) (more : List (Nat × α)),
      draft.segments.toList <+: (draft.attempts more).1.segments.toList) ∧
    (some .tooManyItems ∉ made.2 →
      made.2 = Draft.refusals pieces ∧
      ∃ list, made.1 = .ofList list ∧ empty.appendAll (Draft.accepted pieces) = .ok list ∧
        list.Laid (Draft.accepted pieces) ∧
        ∀ more, some .tooManyItems ∉ ((Draft.ofList list).attempts more).2 →
          ∃ grown, ((Draft.ofList list).attempts more).1 = .ofList grown ∧
            ∀ index < list.size, grown.segmentAt index = list.segmentAt index) ∧
    ∀ (draft : Draft α) (events : List (Shelf.Event α)),
      let shelf := Shelf.run [draft] (.copy 0 :: events)
      shelf[0]? = some (draft.attempts (events.filterMap (·.pieceAt 0))).1 ∧
        shelf[1]? = some (draft.attempts (events.filterMap (·.pieceAt 1))).1 := by
  intro made
  refine ⟨fun list value => append_eq_emptySegment_iff.mpr rfl, ?_, Draft.append_zero, ?_,
    Draft.attempts_kept, ?_, Shelf.copy_apart⟩
  · intro list count value positive
    constructor
    · intro placed
      obtain ⟨grown, _, ran⟩ := placed
      exact (Draft.append_eq_none_iff positive value).mp (congrArg Prod.snd ran)
    · intro fits
      obtain ⟨grown, accepted⟩ := exists_append positive fits value
      exact ⟨grown, accepted, Draft.append_ofList accepted⟩
  · intro draft count value positive
    exact Draft.append_eq_none_iff positive value
  · intro fits
    obtain ⟨list, ran, appended, grew⟩ := Draft.attempts_extends fits
    have inOrder : list.pieces = Draft.accepted pieces := grew.pieces
    refine ⟨congrArg Prod.snd ran, list, congrArg Prod.fst ran, appended, inOrder ▸ list.laid, ?_⟩
    intro more alsoFits
    obtain ⟨grown, ranOn, _, grewOn⟩ := Draft.attempts_extends alsoFits
    refine ⟨grown, congrArg Prod.fst ranOn, ?_⟩
    intro index bound
    exact grewOn.segmentAt bound

theorem attempts_exact_up_to_last_index :
    let pieces := [(0, 'a'), (3, 'b')]
    let more := [(0, 'c'), (maxIndex - 3, 'd')]
    some .tooManyItems ∉ ((Draft.ofList empty).attempts pieces).2 ∧
      ∃ list grown, ((Draft.ofList empty).attempts pieces).1 = .ofList list ∧
        list.pieces = [(3, 'b')] ∧ list.size = 3 ∧
        some .tooManyItems ∉ ((Draft.ofList list).attempts more).2 ∧
        ((Draft.ofList list).attempts more).1 = .ofList grown ∧ grown.size = maxIndex ∧
        grown.segmentAt 2 = list.segmentAt 2 ∧
        0 < 1 ∧ (¬ ∃ full, grown.append 1 'e' = .ok full ∧
          (Draft.ofList grown).append 1 'e' = (.ofList full, none)) ∧
        (((Draft.ofList list).append maxIndex 'e').1.append 1 'f').2 = none := by
  intro pieces more
  have fits : some .tooManyItems ∉ ((Draft.ofList empty).attempts pieces).2 := by decide
  obtain ⟨_, attempt, _, room, _, made, _⟩ := attempts_exact pieces
  obtain ⟨_, list, ran, _, laid, later⟩ := made fits
  have alsoFits : some .tooManyItems ∉ ((Draft.ofList list).attempts more).2 := by
    rw [← ran]
    decide
  obtain ⟨grown, ranOn, found⟩ := later more alsoFits
  have size : list.size = 3 := laid.size
  have full : grown.size = maxIndex := by
    have sum : (((Draft.ofList empty).attempts pieces).1.attempts more).1.size = maxIndex := by
      decide
    rw [ran, ranOn] at sum
    exact sum
  refine ⟨fits, list, grown, ran, laid.inOrder, size, alsoFits, ranOn, full, ?_, by decide, ?_, ?_⟩
  · exact found 2 (by rw [size]; decide)
  · rw [attempt grown 1 'e' (by decide), full]
    decide
  · rw [room _ 1 'f' (by decide), ← ran]
    decide

end SegmentList
end VirtualList
