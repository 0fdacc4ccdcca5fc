import Mathlib

/-!
# The first offence of a run

A system that steps through events from a state in `Inv`. If a step that is allowed keeps `Inv`,
`Inv` gives `Good`, and a step that is not allowed leaves `Good` behind, then a run is good
throughout exactly when each of its steps is allowed.
-/

namespace PgShard.Runs

variable {σ ε : Type} (step : σ → ε → σ) (Inv Good : σ → Prop) (Admits : ε → Prop) (Allowed : σ → ε → Prop)

lemma run_inv (hstep : ∀ s e, Inv s → Admits e → Allowed s e → Inv (step s e)) {s : σ} (hs : Inv s)
    (events : List ε) (hadmits : ∀ e ∈ events, Admits e)
    (hallowed : ∀ earlier e, earlier ++ [e] <+: events → Allowed (earlier.foldl step s) e) :
    Inv (events.foldl step s) := by
  induction events using List.reverseRecOn with
  | nil => exact hs
  | append_singleton earlier e ih =>
    rw [List.foldl_append]
    apply hstep
    · apply ih
      · intro e' he'
        exact hadmits e' (List.mem_append_left _ he')
      · intro before e' hpre
        exact hallowed before e' (hpre.trans (List.prefix_append _ _))
    · exact hadmits e (by simp)
    · exact hallowed earlier e (List.prefix_refl _)

lemma good_throughout_iff (hstep : ∀ s e, Inv s → Admits e → Allowed s e → Inv (step s e))
    (hgood : ∀ s, Inv s → Good s)
    (hbad : ∀ s e, Inv s → Admits e → ¬ Allowed s e → ¬ Good (step s e)) {s : σ} (hs : Inv s)
    (events : List ε) (hadmits : ∀ e ∈ events, Admits e) :
    (∀ earlier, earlier <+: events → Good (earlier.foldl step s)) ↔
      ∀ earlier e, earlier ++ [e] <+: events → Allowed (earlier.foldl step s) e := by
  constructor
  · intro hall earlier
    -- every event before the one looked at is allowed, so that the invariant holds there
    induction hn : earlier.length using Nat.strongRecOn generalizing earlier with
    | ind n ih =>
      intro e hpre
      have hearlier : ∀ before e', before ++ [e'] <+: earlier →
          Allowed (before.foldl step s) e' := by
        intro before e' hbefore
        have hlength := hbefore.length_le
        apply ih before.length _ before rfl
        · exact hbefore.trans ((List.prefix_append _ _).trans hpre)
        · simp only [List.length_append, List.length_singleton] at hlength
          omega
      have hinv : Inv (earlier.foldl step s) := by
        apply run_inv step Inv Admits Allowed hstep hs earlier _ hearlier
        intro e' he'
        exact hadmits e' (hpre.subset (List.mem_append_left _ he'))
      by_contra hnot
      have hlater := hall _ hpre
      rw [List.foldl_append] at hlater
      exact hbad _ e hinv (hadmits e (hpre.subset (by simp))) hnot hlater
  · intro hall earlier hpre
    apply hgood
    apply run_inv step Inv Admits Allowed hstep hs earlier
    · intro e he
      exact hadmits e (hpre.subset he)
    · intro before e hbefore
      exact hall before e (hbefore.trans hpre)

end PgShard.Runs
