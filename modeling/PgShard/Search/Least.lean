import Mathlib

/-!
# Binary search

The least place of an interval where a test holds, found by halving: the test has to fail
before some place and hold from there on.
-/

namespace PgShard.Search

/-- The search from `i` to `j`, `j` excluded; `j` when the test holds nowhere. -/
def least (f : Nat → Bool) (i j : Nat) : Nat :=
  if i < j then
    if f ((i + j) / 2) then least f i ((i + j) / 2) else least f ((i + j) / 2 + 1) j
  else i
termination_by j - i

theorem least_eq {f : Nat → Bool} {n k : Nat} (hf : ∀ m, m < n → (f m = true ↔ k ≤ m)) :
    ∀ i j, i ≤ k → k ≤ j → j ≤ n → least f i j = k := by
  intro i j
  induction i, j using least.induct f with
  | case1 i j hlt hmid ih =>
    intro hi hj hn
    have hk : k ≤ (i + j) / 2 := (hf _ (by omega)).mp hmid
    rw [least, if_pos hlt, if_pos hmid]
    exact ih hi hk (by omega)
  | case2 i j hlt hmid ih =>
    intro hi hj hn
    have hk : ¬ k ≤ (i + j) / 2 := fun hle => hmid ((hf _ (by omega)).mpr hle)
    rw [least, if_pos hlt, if_neg hmid]
    exact ih (by omega) hj hn
  | case3 i j hge =>
    intro hi hj _
    rw [least, if_neg hge]
    omega

end PgShard.Search
