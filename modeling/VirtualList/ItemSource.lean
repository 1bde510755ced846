import VirtualList.ItemKey

namespace VirtualList

def firstHolding (holds : Nat → Bool) (start : Nat) : Nat → Option Nat
  | 0 => none
  | count + 1 => if holds start then some start else firstHolding holds (start + 1) count

theorem firstHolding_eq_some_iff {holds : Nat → Bool} {start count found : Nat} :
    firstHolding holds start count = some found ↔
      start ≤ found ∧ found < start + count ∧ holds found = true ∧
        ∀ n, start ≤ n → n < found → holds n = false := by
  induction count generalizing start with
  | zero =>
    simp only [firstHolding, reduceCtorEq, false_iff]
    omega
  | succ count ih =>
    rw [firstHolding]
    split
    · rename_i here
      rw [Option.some.injEq]
      constructor
      · rintro rfl
        exact ⟨Nat.le_refl _, by omega, here, fun n from_start before => by omega⟩
      · rintro ⟨from_start, _, _, none⟩
        refine Nat.le_antisymm from_start (Nat.le_of_not_lt fun later => ?_)
        simp [none start (Nat.le_refl _) later] at here
    · rename_i missed
      rw [ih]
      constructor
      · rintro ⟨from_next, bound, there, none⟩
        refine ⟨by omega, by omega, there, fun n from_start before => ?_⟩
        rcases Nat.eq_or_lt_of_le from_start with rfl | later
        · simpa using missed
        · exact none n later before
      · rintro ⟨from_start, bound, there, none⟩
        have different : found ≠ start := by
          rintro rfl
          exact missed there
        exact ⟨by omega, by omega, there, fun n from_next before => none n (by omega) before⟩

theorem firstHolding_eq_none_iff {holds : Nat → Bool} {start count : Nat} :
    firstHolding holds start count = none ↔
      ∀ n, start ≤ n → n < start + count → holds n = false := by
  induction count generalizing start with
  | zero =>
    simp only [firstHolding, true_iff]
    intro n from_start before
    omega
  | succ count ih =>
    rw [firstHolding]
    split
    · rename_i here
      simp only [reduceCtorEq, false_iff]
      intro none
      simp [none start (Nat.le_refl _) (by omega)] at here
    · rename_i missed
      rw [ih]
      constructor
      · intro none n from_start bound
        rcases Nat.eq_or_lt_of_le from_start with rfl | later
        · simpa using missed
        · exact none n later (by omega)
      · exact fun none n from_next bound => none n (by omega) (by omega)

def searchFor (count : Nat) (keyAt : Nat → ItemKey) (key : ItemKey) : Option Nat :=
  firstHolding (fun index => keyAt index == key) 0 count

-- A source that only counts its items knows them by position, and one that only supplies keys
-- finds a key by search from the front.
structure ItemSource where
  count : Nat
  keyAt : Nat → ItemKey := .positional
  contentTypeAt : Nat → Option UInt64 := fun _ => none
  indexOf? : ItemKey → Option Nat := searchFor count keyAt

namespace ItemSource

def ofCount (count : Nat) : ItemSource := { count }

def ofKeys (count : Nat) (keyAt : Nat → ItemKey) : ItemSource := { count, keyAt }

end ItemSource
end VirtualList
