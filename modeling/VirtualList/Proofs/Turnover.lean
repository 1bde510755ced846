import Mathlib.Data.Finset.Card
import Mathlib.Data.Finset.Dedup
import VirtualList.Proofs.ItemsHistory
import VirtualList.Proofs.Reach

-- How often a window moves while the first visible item runs through a list. It moves at most when
-- the bucket changes; and as long as the run goes one way, no range comes back once it was left, so
-- that the moves count the ranges passed.
namespace VirtualList

def changes [DecidableEq β] (label : Nat → β) (first : Nat) (rest : List Nat) : Nat :=
  ((first :: rest).zip rest).countP fun (former, latter) => label former ≠ label latter

def OneWay (numbers : List Nat) : Prop := numbers.Pairwise (· ≤ ·) ∨ numbers.Pairwise (· ≥ ·)

def Contiguous (label : Nat → β) : Prop :=
  ∀ low middle high, low ≤ middle → middle ≤ high → label low = label high →
    label low = label middle

namespace OneWay

variable {first second later : Nat} {rest : List Nat}

theorem tail (run : OneWay (first :: rest)) : OneWay rest := by
  rcases run with rising | falling
  · exact .inl rising.of_cons
  · exact .inr falling.of_cons

theorem between_of_pairwise {r : Nat → Nat → Prop} (reflexive : ∀ n, r n n)
    (run : (first :: second :: rest).Pairwise r) (member : later ∈ second :: rest) :
    r first second ∧ r second later := by
  refine ⟨List.rel_of_pairwise_cons run List.mem_cons_self, ?_⟩
  rcases List.mem_cons.mp member with rfl | after
  · exact reflexive later
  · exact List.rel_of_pairwise_cons run.of_cons after

theorem between (run : OneWay (first :: second :: rest)) (member : later ∈ second :: rest) :
    (first ≤ second ∧ second ≤ later) ∨ (later ≤ second ∧ second ≤ first) := by
  rcases run with rising | falling
  · exact .inl (between_of_pairwise Nat.le_refl rising member)
  · exact .inr (between_of_pairwise (r := (· ≥ ·)) Nat.le_refl falling member).symm

end OneWay

theorem Contiguous.of_monotone {label : Nat → Nat} (monotone : Monotone label) :
    Contiguous label := by
  intro low middle high lower upper same
  apply Nat.le_antisymm (monotone lower)
  rw [same]
  exact monotone upper

theorem Contiguous.first_eq_second {label : Nat → β} (contiguous : Contiguous label)
    {first second later : Nat} {rest : List Nat} (run : OneWay (first :: second :: rest))
    (member : later ∈ second :: rest) (same : label first = label later) :
    label first = label second := by
  rcases run.between member with ⟨before, after⟩ | ⟨after, before⟩
  · exact contiguous first second later before after same
  · have back := contiguous later second first after before same.symm
    exact same.trans back

section Labels

variable [DecidableEq β] {label : Nat → β} {first : Nat} {rest : List Nat}

theorem changes_cons (label : Nat → β) (first second : Nat) (rest : List Nat) :
    changes label first (second :: rest) =
      changes label second rest + if label first = label second then 0 else 1 := by
  simp [changes, List.countP_cons]

theorem changes_le_changes [DecidableEq γ] {coarse : Nat → γ}
    (refines : ∀ m ∈ first :: rest, ∀ n ∈ first :: rest, label m = label n → coarse m = coarse n) :
    changes coarse first rest ≤ changes label first rest := by
  apply List.countP_mono_left
  intro pair member differs
  obtain ⟨former, latter⟩ := List.of_mem_zip member
  simp only [decide_eq_true_eq] at differs ⊢
  intro same
  exact differs (refines _ former _ (List.mem_cons_of_mem _ latter) same)

-- The step into a label that is not seen again adds one change and one label.
theorem changes_add_one (contiguous : Contiguous label) (run : OneWay (first :: rest)) :
    changes label first rest + 1 = ((first :: rest).map label).toFinset.card := by
  induction rest generalizing first with
  | nil => rfl
  | cons second rest ih =>
    have counted := ih run.tail
    rw [List.map_cons, List.toFinset_cons, changes_cons]
    by_cases same : label first = label second
    · have known : label first ∈ ((second :: rest).map label).toFinset := by
        rw [same]
        exact List.mem_toFinset.mpr (List.mem_map_of_mem List.mem_cons_self)
      rw [Finset.insert_eq_of_mem known, if_pos same, Nat.add_zero, counted]
    · have new : label first ∉ ((second :: rest).map label).toFinset := by
        intro known
        obtain ⟨later, member, again⟩ := List.mem_map.mp (List.mem_toFinset.mp known)
        exact same (contiguous.first_eq_second run member again.symm)
      rw [Finset.card_insert_of_notMem new, if_neg same, counted]

end Labels

theorem changes_le_distance {label : Nat → Nat} (monotone : Monotone label) {first : Nat}
    {rest : List Nat} (run : OneWay (first :: rest)) :
    changes label first rest ≤ ((label (rest.getLastD first) : Int) - label first).natAbs := by
  induction rest generalizing first with
  | nil => exact Nat.zero_le _
  | cons second rest ih =>
    have remaining := ih run.tail
    have member : rest.getLastD second ∈ second :: rest := List.getLastD_mem_cons ..
    rw [List.getLastD_cons, changes_cons]
    rcases run.between member with ⟨before, after⟩ | ⟨after, before⟩
    · have lower := monotone before
      have upper := monotone after
      split
      · omega
      · omega
    · have lower := monotone before
      have upper := monotone after
      split
      · omega
      · omega

namespace WindowShape

variable {shape : WindowShape} {m n : Nat}

theorem around_contiguous (shape : WindowShape) : Contiguous shape.around := by
  intro low middle high lower upper same
  have start := Contiguous.of_monotone (start_mono shape) low middle high lower upper
    (congrArg IndexRange.start same)
  have stop := Contiguous.of_monotone (stop_mono shape) low middle high lower upper
    (congrArg IndexRange.stop same)
  calc shape.around low = ⟨(shape.around low).start, (shape.around low).stop⟩ := rfl
    _ = ⟨(shape.around middle).start, (shape.around middle).stop⟩ := by rw [start, stop]
    _ = shape.around middle := rfl

theorem around_eq_of_div_eq (same : m / shape.bucket = n / shape.bucket) :
    shape.around m = shape.around n := by
  simp only [around, bucketStart, same]

theorem changes_around_le (shape : WindowShape) (first : Nat) (firsts : List Nat) :
    changes shape.around first firsts ≤ changes (· / shape.bucket) first firsts := by
  apply changes_le_changes
  intro m _ n _ same
  exact around_eq_of_div_eq same

theorem changes_around_eq (room : shape.bucket + 2 * shape.margin < maxIndex) {first : Nat}
    {firsts : List Nat} (bounded : ∀ n ∈ first :: firsts, n ≤ maxIndex) :
    changes shape.around first firsts = changes (· / shape.bucket) first firsts := by
  apply Nat.le_antisymm (changes_around_le shape first firsts)
  apply changes_le_changes
  intro m former n latter same
  exact (around_eq_iff room (bounded m former) (bounded n latter)).mp same

end WindowShape

def flags (follow : σ → Nat → Noted (σ × Bool)) (state : σ) : List Nat → List Bool
  | [] => []
  | first :: rest => (follow state first).value.2 :: flags follow (follow state first).value.1 rest

theorem count_flags (shape : WindowShape) (nonempty : 0 < shape.bucket) (first : Nat)
    (firsts : List Nat) :
    (flags Window.follow (.ofShape shape nonempty first) firsts).count true =
      changes shape.around first firsts := by
  induction firsts generalizing first with
  | nil => rfl
  | cons next rest ih =>
    rw [flags, Window.follow_ofShape, List.count_cons, ih, changes_cons]
    by_cases same : shape.around first = shape.around next
    · simp [same]
    · simp [same, Ne.symm same]

-- A list rebuilds its table exactly when its window moves.
theorem flags_items (items : WindowedItems) (firsts : List Nat) :
    flags WindowedItems.follow items firsts = flags Window.follow items.window firsts := by
  induction firsts generalizing items with
  | nil => rfl
  | cons first rest ih =>
    rw [flags, flags, ih, WindowedItems.follow_window, WindowedItems.follow_moved]

theorem moves_counted {window : Window} (path : window.Reached) (firsts : List Nat) :
    let shape := window.shape
    let passed := window.first :: firsts
    let moves := (flags Window.follow window firsts).count true
    (OneWay passed →
      moves + 1 = (passed.map shape.around).toFinset.card ∧
      moves ≤ ((firsts.getLastD window.first / shape.bucket : Nat) -
        (window.first / shape.bucket : Nat) : Int).natAbs ∧
      (shape.bucket + 2 * shape.margin < maxIndex → (∀ first ∈ passed, first ≤ maxIndex) →
        moves + 1 = (passed.map (· / shape.bucket)).toFinset.card)) ∧
    moves ≤ changes (· / shape.bucket) window.first firsts ∧
    ∀ items : WindowedItems, items.window = window →
      flags WindowedItems.follow items firsts = flags Window.follow window firsts := by
  intro shape passed moves
  have quotient : Monotone (· / shape.bucket) := by
    intro m n le
    exact Nat.div_le_div_right le
  have counted : moves = changes shape.around window.first firsts := by
    rw [← count_flags shape window.nonempty, ← Window.reached_ofShape path]
  rw [counted]
  have buckets := shape.changes_around_le window.first firsts
  refine ⟨?_, buckets, ?_⟩
  · intro run
    refine ⟨changes_add_one shape.around_contiguous run, ?_, ?_⟩
    · exact Nat.le_trans buckets (changes_le_distance quotient run)
    · intro room bounded
      rw [WindowShape.changes_around_eq room bounded]
      exact changes_add_one (.of_monotone quotient) run
  · intro items same
    rw [flags_items, same]

theorem moves_counted_downwards :
    ∃ window, Window.start ⟨10, 5⟩ 47 = .ok window ∧ window.Reached ∧
      OneWay (47 :: [41, 39, 39, 22, 8, 3]) ∧ (WindowShape.mk 10 5).bucket + 2 * 5 < maxIndex ∧
      (∀ first ∈ 47 :: [41, 39, 39, 22, 8, 3], first ≤ maxIndex) ∧
      let moves := (flags Window.follow window [41, 39, 39, 22, 8, 3]).count true
      moves = 3 ∧ moves ≤ 4 := by
  have path := Window.ofShape_reached ⟨10, 5⟩ (by decide) 47
  have run : OneWay (47 :: [41, 39, 39, 22, 8, 3]) := .inr (by decide)
  have bounded : ∀ first ∈ 47 :: [41, 39, 39, 22, 8, 3], first ≤ maxIndex := by decide
  refine ⟨_, rfl, path, run, by decide, bounded, ?_⟩
  obtain ⟨_, distance, quotients⟩ := (moves_counted path [41, 39, 39, 22, 8, 3]).1 run
  have counted := quotients (by decide) bounded
  exact ⟨Nat.succ.inj (counted.trans (by decide)), distance⟩

end VirtualList
