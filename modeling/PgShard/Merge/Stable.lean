import Mathlib

/-!
# Stable merges

Several lists merged into one, ties going to the earlier list; and the merge that repeatedly takes
the least head. Neither asks the lists to be sorted.
-/

namespace PgShard.Merge

variable {α : Type} (le : α → α → Bool)

variable {ls : List (List α)}

/-- The stable merge of several lists. -/
def stable (ls : List (List α)) : List α := ls.foldr (fun l acc => l.merge acc le) []

@[simp] lemma stable_nil : stable le [] = [] := rfl

@[simp] lemma stable_cons (l : List α) (ls : List (List α)) : stable le (l :: ls) = l.merge (stable le ls) le := rfl

/-- The first elements of a merge come from the first elements of its arguments. -/
lemma take_merge (n : Nat) (xs ys : List α) :
    (xs.merge ys le).take n = ((xs.take n).merge (ys.take n) le).take n := by
  induction n generalizing xs ys with
  | zero => rfl
  | succ n ih =>
    cases xs with
    | nil => simp [List.take_take]
    | cons x xs =>
      cases ys with
      | nil => simp [List.take_take]
      | cons y ys =>
        simp only [List.take_succ_cons, List.cons_merge_cons]
        by_cases hxy : le x y
        · simp only [if_pos hxy, List.take_succ_cons]
          rw [ih xs (y :: ys), ih (xs.take n) (y :: ys.take n)]
          cases n with
          | zero => rfl
          | succ n => simp [List.take_take]
        · simp only [if_neg hxy, List.take_succ_cons]
          rw [ih (x :: xs) ys, ih (x :: xs.take n) (ys.take n)]
          cases n with
          | zero => rfl
          | succ n => simp [List.take_take]

/-- Cutting every list at `m` leaves the first `n` elements of the merge alone, for `n ≤ m`. -/
lemma take_stable_map_take {n m : Nat} (h : n ≤ m) (ls : List (List α)) :
    (stable le (ls.map (List.take m))).take n = (stable le ls).take n := by
  induction ls with
  | nil => rfl
  | cons l ls ih =>
    have hl : (l.take m).take n = l.take n := by rw [List.take_take, Nat.min_eq_left h]
    rw [List.map_cons, stable_cons, stable_cons, take_merge le n (l.take m), hl, ih, ← take_merge le n l]

/-- The same for the lists laid end to end. -/
lemma take_flatten_map_take {n m : Nat} (h : n ≤ m) (ls : List (List α)) :
    ((ls.map (List.take m)).flatten).take n = (ls.flatten).take n := by
  induction ls generalizing n with
  | nil => rfl
  | cons l ls ih =>
    simp only [List.map_cons, List.flatten_cons, List.take_append, List.take_take, List.length_take]
    by_cases hlen : m ≤ l.length
    · have hz : n - min m l.length = 0 := by omega
      have hz' : n - l.length = 0 := by omega
      simp [hz, hz', Nat.min_eq_left h]
    · have hm : min m l.length = l.length := by omega
      rw [hm, Nat.min_eq_left h, ih (by omega)]

/-- An element stands no later than another in the merge: it is below, or ties from an earlier
list. -/
def Before (x : α × Nat) (y : α × Nat) : Prop :=
  if x.2 ≤ y.2 then le x.1 y.1 = true else le y.1 x.1 = false

/-- The heads of the lists, each with the place of its list. -/
def heads (start : Nat) : List (List α) → List (α × Nat)
  | [] => []
  | [] :: ls => heads (start + 1) ls
  | (x :: _) :: ls => (x, start) :: heads (start + 1) ls

lemma heads_start (start : Nat) {x : α × Nat} (h : x ∈ heads start ls) : start ≤ x.2 := by
  induction ls generalizing start with
  | nil => cases h
  | cons l ls ih =>
    cases l with
    | nil =>
      have := ih (start + 1) h
      omega
    | cons y l =>
      rcases List.mem_cons.mp h with rfl | h
      · exact .refl
      · have := ih (start + 1) h
        omega

/-- The merge begins with one of the heads. -/
lemma head_stable (start : Nat) {y : α} {rest : List α}
    (h : stable le ls = y :: rest) : ∃ i, (y, i) ∈ heads start ls := by
  induction ls generalizing start y rest with
  | nil => cases h
  | cons l ls ih =>
    cases l with
    | nil =>
      rw [stable_cons, List.nil_merge] at h
      exact ih (start + 1) h
    | cons x l =>
      cases hs : stable le ls with
      | nil =>
        rw [stable_cons, hs, List.merge_right] at h
        cases h
        exact ⟨start, List.mem_cons_self⟩
      | cons z zs =>
        rw [stable_cons, hs, List.cons_merge_cons] at h
        split at h
        · cases h
          exact ⟨start, List.mem_cons_self⟩
        · cases h
          obtain ⟨i, hi⟩ := ih (start + 1) hs
          exact ⟨i, List.mem_cons_of_mem _ hi⟩

/-- The lists with the head of list `i` gone. -/
def advance (i : Nat) (ls : List (List α)) : List (List α) := ls.modify i List.tail

/-- Whichever head stands before all the others is the first element of the merge. -/
lemma stable_of_least {start : Nat} {x : α} {i : Nat} (hx : (x, start + i) ∈ heads start ls)
    (hleast : ∀ y ∈ heads start ls, Before le (x, start + i) y) : stable le ls = x :: stable le (advance i ls) := by
  induction ls generalizing start i with
  | nil => cases hx
  | cons l ls ih =>
    cases i with
    | zero =>
      cases l with
      | nil =>
        have := heads_start (start + 1) hx
        simp only [Nat.add_zero] at this
        omega
      | cons y l =>
        have hy : x = y := by
          rcases List.mem_cons.mp hx with hxy | hlater
          · exact (Prod.mk.inj hxy).1
          · have := heads_start _ hlater
            simp only [Nat.add_zero] at this
            omega
        subst hy
        simp only [advance, List.modify_zero_cons, List.tail_cons, stable_cons]
        cases hs : stable le ls with
        | nil => simp
        | cons z zs =>
          obtain ⟨j, hj⟩ := head_stable le (start + 1) hs
          have hlt := heads_start _ hj
          have hbefore := hleast (z, j) (.tail _ hj)
          have hle : start + 0 ≤ j := by simp only at hlt; omega
          rw [Before, if_pos hle] at hbefore
          rw [List.cons_merge_cons, if_pos hbefore]
    | succ i =>
      have hshift : start + (i + 1) = start + 1 + i := by omega
      have hlater : (x, start + 1 + i) ∈ heads (start + 1) ls := by
        cases l with
        | nil => rwa [hshift] at hx
        | cons y l =>
          rcases List.mem_cons.mp hx with hxy | hlater
          · have := (Prod.mk.inj hxy).2
            omega
          · rwa [hshift] at hlater
      have hrest : stable le ls = x :: stable le (advance i ls) := by
        apply ih hlater
        intro y hy
        rw [← hshift]
        refine hleast y ?_
        cases l with
        | nil => exact hy
        | cons z l => exact .tail _ hy
      simp only [advance, List.modify_succ_cons, stable_cons]
      rw [hrest]
      cases l with
      | nil => simp [advance]
      | cons y l =>
        have hbefore := hleast (y, start) List.mem_cons_self
        rw [Before, if_neg (by simp only; omega)] at hbefore
        rw [List.cons_merge_cons, if_neg (by simp [hbefore])]
        rfl

lemma heads_advance {start i : Nat} {x : α} {rest : List α}
    (h : ls[i]? = some (x :: rest)) : ∃ others, (heads start ls).Perm ((x, start + i) :: others) ∧
      (heads start (advance i ls)).Perm ((rest.head?.map fun y => (y, start + i)).toList ++ others) := by
  induction ls generalizing start i with
  | nil => cases h
  | cons l ls ih =>
    cases i with
    | zero =>
      cases h
      refine ⟨heads (start + 1) ls, List.Perm.refl _, ?_⟩
      cases rest with
      | nil => exact .refl _
      | cons y rest => exact .refl _
    | succ i =>
      obtain ⟨others, hheads, hadvance⟩ := @ih (start + 1) i (by simpa using h)
      have hshift : start + (i + 1) = start + 1 + i := by omega
      rw [hshift]
      cases l with
      | nil => exact ⟨others, hheads, hadvance⟩
      | cons y l =>
        refine ⟨(y, start) :: others, ?_, ?_⟩
        · exact (hheads.cons _).trans (List.Perm.swap _ _ _)
        · exact (hadvance.cons _).trans List.perm_middle.symm

lemma getElem_of_heads {start : Nat} {x : α} {j : Nat}
    (h : (x, j) ∈ heads start ls) : ∃ rest, ls[j - start]? = some (x :: rest) := by
  induction ls generalizing start with
  | nil => cases h
  | cons l ls ih =>
    cases l with
    | nil =>
      have h : (x, j) ∈ heads (start + 1) ls := h
      have hstart : start + 1 ≤ j := heads_start _ h
      obtain ⟨rest, hrest⟩ := ih h
      have hshift : j - start = (j - (start + 1)) + 1 := by omega
      exact ⟨rest, by rw [hshift]; simpa using hrest⟩
    | cons y l =>
      rcases List.mem_cons.mp h with hxy | hlater
      · obtain ⟨rfl, rfl⟩ := Prod.mk.inj hxy
        exact ⟨l, by simp⟩
      · have hstart : start + 1 ≤ j := heads_start _ hlater
        obtain ⟨rest, hrest⟩ := ih hlater
        have hshift : j - start = (j - (start + 1)) + 1 := by omega
        exact ⟨rest, by rw [hshift]; simpa using hrest⟩

end PgShard.Merge
