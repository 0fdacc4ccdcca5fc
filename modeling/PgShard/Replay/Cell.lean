import Mathlib

/-!
# Writes to one cell, replayed

A cell holds a value or nothing. A put fills an empty cell, and in a full one it keeps a part of the
value that is there; a drop empties the cell. Writes that are replayed over the outcome of their own
first ones lead where they lead from the start.
-/

namespace PgShard.Replay

inductive Write (R : Type*) where
  | put (r : R)
  | drop

section

variable {R : Type*} (keep : R → R → R)

/-- `keep old new` is what a put of `new` leaves of a cell that holds `old`. -/
def Write.run : Write R → Option R → Option R
  | .put r, x => some (keep (x.getD r) r)
  | .drop, _ => none

def replay (ws : List (Write R)) (x : Option R) : Option R := ws.foldl (fun x w => w.run keep x) x

@[simp] lemma replay_nil (x : Option R) : replay keep [] x = x := rfl

@[simp] lemma replay_cons (w : Write R) (ws : List (Write R)) (x : Option R) :
    replay keep (w :: ws) x = replay keep ws (w.run keep x) := rfl

lemma replay_append (ws us : List (Write R)) (x : Option R) :
    replay keep (ws ++ us) x = replay keep us (replay keep ws x) := List.foldl_append

/-- What was there before a drop does not matter. -/
lemma replay_of_drop {ws : List (Write R)} (h : Write.drop ∈ ws) (x y : Option R) :
    replay keep ws x = replay keep ws y := by
  induction ws generalizing x y with
  | nil => cases h
  | cons w ws ih =>
    cases w with
    | drop => rfl
    | put r =>
      have hmem : Write.drop ∈ ws := by simpa using h
      exact ih hmem _ _

variable {keep}

/-- Puts only: the first decides what is kept of an empty cell, the last the rest. -/
lemma replay_puts (hkeep : ∀ o r r', keep (keep o r) r' = keep o r') (r : R) (rs : List R)
    (x : Option R) : replay keep ((r :: rs).map .put) x = some (keep (x.getD r) (rs.getLastD r)) := by
  induction rs generalizing r x with
  | nil => rfl
  | cons q rs ih =>
    rw [List.map_cons, replay_cons, ih, List.getLastD_cons]
    simp [Write.run, hkeep]

lemma eq_puts_of_no_drop {ws : List (Write R)} (h : Write.drop ∉ ws) : ∃ rs : List R, ws = rs.map .put := by
  induction ws with
  | nil => exact ⟨[], rfl⟩
  | cons w ws ih =>
    obtain ⟨rs, rfl⟩ := ih fun hmem => h (.tail _ hmem)
    cases w with
    | put r => exact ⟨r :: rs, rfl⟩
    | drop => exact absurd List.mem_cons_self h

/-- Writes absorb what the first of them did before. -/
lemma replay_absorb (hkeep : ∀ o r r', keep (keep o r) r' = keep o r') (ws us : List (Write R))
    (x : Option R) : replay keep (ws ++ us) (replay keep ws x) = replay keep (ws ++ us) x := by
  by_cases hdrop : Write.drop ∈ ws ++ us
  · exact replay_of_drop keep hdrop _ _
  · obtain ⟨rs, hws⟩ := eq_puts_of_no_drop fun hmem => hdrop (List.mem_append_left us hmem)
    obtain ⟨qs, hus⟩ := eq_puts_of_no_drop fun hmem => hdrop (List.mem_append_right ws hmem)
    subst hws hus
    cases rs with
    | nil => rfl
    | cons r rs =>
      rw [← List.map_append, List.cons_append, replay_puts hkeep, replay_puts hkeep, replay_puts hkeep]
      simp [hkeep]

end

end PgShard.Replay
