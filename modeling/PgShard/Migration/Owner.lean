import PgShard.Migration.Retrying

/-!
# The pass of the controller that leads

While a pass is that of the controller that leads, no other pass writes the row: the passes of one term run
one after the other, and the writes of an earlier term are refused. What the shards hold is another matter,
since nothing there knows of a term.
-/

namespace PgShard.Migration

open Interleave

variable {Q A : Type}

/-- What a pass may count on between two of its calls, of what `view` shows of a shard. -/
structure Leads (view : ShardData Q → A) (i : Nat) (s t : World Q) : Prop extends Later i s t where
  lost : s.owner = some i → t.owner = some i ∨ s.term < t.term
  kept : t.owner = some i → s.owner = some i ∧ t.term = s.term ∧ t.row = s.row ∧
    ∀ key, view (t.shards key) = view (s.shards key)

namespace Leads

variable {view : ShardData Q → A} {i : Nat} {s t u : World Q}

lemma refl (i : Nat) (s : World Q) : Leads view i s s := ⟨{}, .inl, fun h => ⟨h, rfl, rfl, fun _ => rfl⟩⟩

lemma trans (h : Leads view i s t) (h' : Leads view i t u) : Leads view i s u := by
  refine ⟨h.toLater.trans h'.toLater, fun hs => ?_, fun hu => ?_⟩
  · rcases h.lost hs with ht | ht
    · rcases h'.lost ht with hu | hu
      · exact .inl hu
      · exact .inr (Nat.lt_of_le_of_lt h.term hu)
    · exact .inr (Nat.lt_of_lt_of_le ht h'.term)
  · obtain ⟨ht, hterm', hrow', hview'⟩ := h'.kept hu
    obtain ⟨hs, hterm, hrow, hview⟩ := h.kept ht
    exact ⟨hs, hterm'.trans hterm, hrow'.trans hrow, fun key => (hview' key).trans (hview key)⟩

/-- What the pass of the controller that leads does, as the others see it. -/
lemma of_owner {j : Nat} (howner : s.owner = some i) (hne : j ≠ i) (hterm : t.term = s.term := by rfl)
    (hcancelled : t.cancelled = s.cancelled := by rfl) (hsame : t.owner = s.owner := by rfl) : Leads view j s t := by
  have hno : s.owner ≠ some j := fun h => hne (Option.some.inj (h.symm.trans howner))
  exact ⟨⟨Nat.le_of_eq hterm.symm, fun h => hcancelled ▸ h⟩, fun h => absurd h hno,
    fun h => absurd (hsame.symm.trans h) hno⟩

/-- What a pass does that leaves all this as it is. -/
lemma of_same {j : Nat} (hview : ∀ key, view (t.shards key) = view (s.shards key))
    (hterm : t.term = s.term := by rfl) (hcancelled : t.cancelled = s.cancelled := by rfl)
    (howner : t.owner = s.owner := by rfl) (hrow : t.row = s.row := by rfl) : Leads view j s t :=
  ⟨⟨Nat.le_of_eq hterm.symm, fun h => hcancelled ▸ h⟩, fun h => .inl (howner.trans h),
    fun h => ⟨howner.symm.trans h, hterm, hrow, hview⟩⟩

lemma returned {j : Nat} (hne : j ≠ i) :
    Leads view j s (if s.owner = some i then { s with owner := none } else s) := by
  split
  · rename_i howner
    have hno : s.owner ≠ some j := fun h => hne (Option.some.inj (h.symm.trans howner))
    exact ⟨{}, fun h => absurd h hno, nofun⟩
  · exact refl j s

lemma happen (e : Event) (n : Nat) (w : World Q) (hi : i < n) : Leads view i w (Migration.happen e n w).2 := by
  have hlater := Later.happen e n w i
  cases e with
  | enqueue | cancel pass => exact ⟨hlater, .inl, fun h => ⟨h, rfl, rfl, fun _ => rfl⟩⟩
  | takeLeaderTerm => exact ⟨hlater, fun _ => .inr (Nat.lt_succ_self _), nofun⟩
  | begin led catalog =>
    cases led with
    | false => exact refl i w
    | true =>
      simp only [Migration.happen]
      split
      · rename_i hfree
        refine ⟨{}, fun h => ?_, fun h => ?_⟩
        · rw [h] at hfree
          cases hfree
        · exact absurd (Option.some.inj h) (Nat.ne_of_gt hi)
      · exact refl i w

end Leads

/-- The controller still leads when it latches its term. -/
def Event.led : Event → Bool
  | .begin led _ => led
  | _ => true

/-- The pass is that of the controller that leads, under the term in force, or its term has passed on. -/
structure Led (i : Nat) (p : Pass) (w : World Q) : Prop where
  guarded : p.term ≠ 0
  current : w.owner = some i → p.term = w.term
  passed : w.owner = some i ∨ p.term < w.term

namespace Led

variable {view : ShardData Q → A} {i : Nat} {p : Pass} {w u : World Q}

lemma later (h : Led i p w) (hu : Leads view i w u) : Led i p u := by
  refine ⟨h.guarded, fun howner => ?_, ?_⟩
  · obtain ⟨hw, hterm, -⟩ := hu.kept howner
    exact (h.current hw).trans hterm.symm
  · rcases h.passed with howner | hlt
    · rcases hu.lost howner with hstill | hmore
      · exact .inl hstill
      · exact .inr (h.current howner ▸ hmore)
    · exact .inr (Nat.lt_of_lt_of_le hlt hu.term)

/-- The catalog takes what the pass writes just when it leads. -/
lemma accepts_iff (h : Led i p w) : w.accepts p.term = true ↔ w.owner = some i := by
  simp only [World.accepts, Bool.or_eq_true, decide_eq_true_eq]
  constructor
  · rintro (hzero | heq)
    · exact absurd hzero h.guarded
    · exact h.passed.resolve_right fun hlt => Nat.ne_of_lt hlt heq
  · exact fun howner => .inr (h.current howner)

/-- A pass is begun under the term in force. -/
lemma begun {e : Event} {n : Nat} {task : Prog Q Unit} (hbegins : (happen e n w).1 = some task)
    (hled : ∀ catalog, e ≠ .begin false catalog) (hterm : 0 < w.term) :
    ∃ p, task = runOnce p ∧ Led n p (happen e n w).2 := by
  rcases happen_begins hbegins with ⟨catalog, -, htask, -, hstore⟩ | ⟨catalog, hunled, -⟩
  · refine ⟨⟨w.term, catalog⟩, htask, ?_⟩
    rw [hstore]
    exact ⟨Nat.ne_of_gt hterm, fun _ => rfl, .inl rfl⟩
  · exact absurd hunled (hled catalog)

end Led

end PgShard.Migration
