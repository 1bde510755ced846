namespace VirtualList

def bisect (holds : Nat → Bool) (lo hi : Nat) : Nat :=
  if lo < hi then
    let middle := lo + (hi - lo) / 2
    if holds middle then bisect holds lo middle else bisect holds (middle + 1) hi
  else lo
termination_by hi - lo

theorem bisect_eq {holds : Nat → Bool} {lo hi cut : Nat} (above : lo ≤ cut) (below : cut ≤ hi)
    (fails : ∀ n, lo ≤ n → n < cut → holds n = false)
    (succeeds : ∀ n, cut ≤ n → n < hi → holds n = true) : bisect holds lo hi = cut := by
  fun_induction bisect holds lo hi with
  | case1 lo hi active middle found ih =>
    refine ih above ?_ fails fun n from_cut before => succeeds n from_cut (by omega)
    exact Nat.le_of_not_lt fun past => by simp [fails middle (by omega) past] at found
  | case2 lo hi active middle missed ih =>
    refine ih ?_ below (fun n past before => fails n (by omega) before) succeeds
    exact Nat.lt_of_not_le fun early => missed (succeeds middle early (by omega))
  | case3 lo hi done => omega

end VirtualList
