import Mathlib

/-!
# Values that are at one place at most

A family of sets over places, no value in two of them. Values may leave a place, and a place may
gain values that no other place holds afterwards.
-/

namespace PgShard.Places

variable {ι α : Type*} {V V' : ι → Set α}

def Separate (V : ι → Set α) : Prop := ∀ ⦃p q v⦄, v ∈ V p → v ∈ V q → p = q

lemma Separate.gain (h : Separate V) (q : ι) (S : Set α) (hV : ∀ p, p ≠ q → V' p ⊆ V p)
    (hq : V' q ⊆ V q ∪ S) (hS : ∀ p, p ≠ q → ∀ v ∈ S, v ∉ V' p) : Separate V' := by
  -- one of the two places is the one that gained
  have apart : ∀ p v, p ≠ q → v ∈ V' p → v ∉ V' q := by
    intro p v hpq hp hvq
    rcases hq hvq with hold | hnew
    · exact hpq (h (hV p hpq hp) hold)
    · exact hS p hpq v hnew hp
  intro p r v hp hr
  by_cases hpq : p = q
  · subst hpq
    by_contra hne
    exact apart r v (Ne.symm hne) hr hp
  · by_cases hrq : r = q
    · subst hrq
      exact absurd hr (apart p v hpq hp)
    · exact h (hV p hpq hp) (hV r hrq hr)

end PgShard.Places
