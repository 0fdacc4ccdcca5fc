import PgShard.Migration.Passes

/-!
# What a pass's calls do

One lemma for each kind of call, and the rule for the loop that runs a shard's step until it ends. The rule
follows the loop once; what holds at its points is for its user to say.
-/

namespace PgShard.Migration

open Interleave

variable {Q : Type}

variable {w w' : World Q} {x : Luck} {c : Call Q} {i : Nat} {key : Key}

lemma World.write_cases {x : SaveLuck} {term : Nat} {starts : Bool} {row : DDLMigration Q}
    {r : Except SaveError Unit} (h : w.write x term starts row = (r, w')) :
    (w' = w ∧ r ≠ .ok () ∧ (r = .error .notLeaderTerm → w.accepts term = false)) ∨
      w.accepts term = true ∧ w' = { w with row := row } ∧ r ≠ .error .notLeaderTerm := by
  cases x with
  | lost e =>
    cases h
    exact .inl ⟨rfl, nofun, nofun⟩
  | landed e =>
    simp only [World.write, Prod.mk.injEq] at h
    obtain ⟨rfl, rfl⟩ := h
    split
    · rename_i haccepts
      exact .inr ⟨haccepts, rfl, nofun⟩
    · exact .inl ⟨rfl, nofun, nofun⟩
  | held =>
    simp only [World.write] at h
    split at h
    · cases h
      exact .inl ⟨rfl, nofun, nofun⟩
    · split at h
      · rename_i haccepts
        cases h
        exact .inr ⟨haccepts, rfl, nofun⟩
      · rename_i hno
        cases h
        exact .inl ⟨rfl, nofun, fun _ => by simpa using hno⟩
  | fine =>
    simp only [World.write] at h
    split at h
    · rename_i haccepts
      cases h
      exact .inr ⟨haccepts, rfl, nofun⟩
    · rename_i hno
      cases h
      exact .inl ⟨rfl, nofun, fun _ => by simpa using hno⟩

/-- The catalog's row, the term and the cancelled passes are as they were. -/
structure World.Keeps (w w' : World Q) : Prop where
  row : w'.row = w.row := by rfl
  term : w'.term = w.term := by rfl
  cancelled : w'.cancelled = w.cancelled := by rfl

def Call.writes : Call Q → Bool
  | .save _ _ | .mirrorAndSave _ _ | .saveMeta _ _ => true
  | _ => false

/-- What has come to an end on a shard stays so. -/
structure ShardData.Grows (d d' : ShardData Q) : Prop where
  ran : d.ran = true → d'.ran = true := by exact id
  done : d.done <+: d'.done := by exact List.prefix_rfl
  phases : d.phases <+: d'.phases := by exact List.prefix_rfl
  cut : d.cut = true → d'.cut = true := by exact id
  reverted : d.reverted = true → d'.reverted = true := by exact id

lemma ShardData.Grows.trans {d d' d'' : ShardData Q} (h : d.Grows d') (h' : d'.Grows d'') : d.Grows d'' :=
  ⟨h'.ran ∘ h.ran, h.done.trans h'.done, h.phases.trans h'.phases, h'.cut ∘ h.cut, h'.reverted ∘ h.reverted⟩

def World.Grows (w w' : World Q) : Prop := ∀ key, (w.shards key).Grows (w'.shards key)

lemma World.Grows.refl (w : World Q) : w.Grows w := fun _ => {}

lemma World.Grows.trans {w'' : World Q} (h : w.Grows w') (h' : w'.Grows w'') : w.Grows w'' :=
  fun key => (h key).trans (h' key)

lemma World.Grows.of_eq (h : w'.shards = w.shards) : w.Grows w' := fun key => by
  rw [h]
  exact {}

@[simp] lemma World.shards_onShard (w : World Q) (key : Key) (f : ShardData Q → ShardData Q) :
    (w.onShard key f).shards key = f (w.shards key) := Function.update_self ..

lemma World.forall_onShard {f : ShardData Q → ShardData Q} {P : Key → ShardData Q → Prop} :
    (∀ key', P key' ((w.onShard key f).shards key')) ↔
      P key (f (w.shards key)) ∧ ∀ key', key' ≠ key → P key' (w.shards key') :=
  Function.forall_update_iff w.shards P

lemma World.Grows.onShard {f : ShardData Q → ShardData Q}
    (h : (w.shards key).Grows (f (w.shards key))) : w.Grows (w.onShard key f) :=
  World.forall_onShard.mpr ⟨h, fun _ _ => {}⟩

lemma ShardData.grows_takes (d : ShardData Q) (took : Bool) : d.Grows (d.takes took) :=
  { ran := fun hran => Bool.or_eq_true_iff.mpr (.inl hran) }

lemma ShardData.grows_effect (d : ShardData Q) (phase : Nat) : d.Grows (d.effect phase) := by
  unfold ShardData.effect
  split <;> exact {}

lemma ShardData.grows_succeed (d : ShardData Q) (phase : Nat) : d.Grows (d.succeed phase) :=
  { phases := List.prefix_append .. }

lemma ShardData.grows_swap (d : ShardData Q) : d.Grows d.swap := { cut := fun _ => rfl }

/-- The catalog is left alone, and what has come to an end on the shards stays so. -/
def World.Works (w w' : World Q) : Prop := w.Keeps w' ∧ w.Grows w'

lemma World.Works.refl (w : World Q) : w.Works w := ⟨{}, .refl w⟩

lemma World.Works.onShard {f : ShardData Q → ShardData Q} (h : (w.shards key).Grows (f (w.shards key))) :
    w.Works (w.onShard key f) := ⟨{}, .onShard h⟩

/-- What is seen to happen is beside it. -/
lemma World.Works.noted {u : World Q} (h : w.Works u) (hkeeps : u.Keeps w' := by exact {})
    (hshards : w'.shards = u.shards := by rfl) : w.Works w' :=
  ⟨⟨hkeeps.row.trans h.1.row, hkeeps.term.trans h.1.term, hkeeps.cancelled.trans h.1.cancelled⟩,
    h.2.trans (.of_eq hshards)⟩

lemma shardExec_works {r : c.Reply} (h : shardExec x c w = some (r, w')) : w.Works w' := by
  cases c with
  | step m key resumed =>
    cases h
    exact (World.Works.onShard (f := (·.takes (x.err.isNone || (x.commits && mayHaveRun m x.err))))
      (ShardData.grows_takes _ _)).noted
  | runStep m key st =>
    cases h
    refine .onShard ?_
    split
    · exact { done := List.prefix_append .. }
    · exact {}
  | rewriteColumns m =>
    cases h
    exact .refl w
  | rewritePhase m key phase =>
    simp only [shardExec] at h
    split at h
    · cases h
      exact .onShard ((ShardData.grows_effect _ _).trans (ShardData.grows_succeed _ _))
    · split at h <;> cases h
      · exact .onShard (ShardData.grows_effect _ _)
      · exact .refl w
  | columnExists m key =>
    simp only [shardExec] at h
    split at h
    · cases h
      exact .refl w
    · split at h <;> cases h
      · exact (World.Works.refl w).noted
      · exact (World.Works.onShard (f := (·.succeed rewriteCutover)) (ShardData.grows_succeed _ _)).noted
  | cutoverCommitted m key =>
    simp only [shardExec] at h
    split at h
    · cases h
      exact .refl w
    · split at h <;> cases h <;> exact (World.Works.refl w).noted
  | swapColumns m key =>
    simp only [shardExec] at h
    split at h
    · cases h
      exact .refl w
    · split at h
      · cases h
        exact .onShard ((ShardData.grows_swap _).trans (ShardData.grows_succeed _ _))
      · split at h <;> cases h
        · exact .onShard (ShardData.grows_swap _)
        · exact .refl w
  | revertRewrite m key =>
    simp only [shardExec] at h
    split at h <;> cases h
    · exact .onShard { reverted := fun _ => rfl }
    · exact .refl w
  | sweepShard key =>
    simp only [shardExec] at h
    split at h <;> cases h
    · exact .onShard {}
    · exact .refl w
  | _ => cases h

/-- The working column of a shard is gone. -/
def ShardData.swept (d : ShardData Q) : ShardData Q := { d with hidden := false }

lemma exec_sweepShard {r : Except Err Unit} (h : exec x i (.sweepShard key) w = some (r, w')) :
    w' = w ∨ w' = w.onShard key ShardData.swept := by
  simp only [exec, shardExec] at h
  split at h <;> cases h
  · exact .inr rfl
  · exact .inl rfl

lemma World.write_shards {x : SaveLuck} {term : Nat} {starts : Bool} {row : DDLMigration Q}
    {r : Except SaveError Unit} (h : w.write x term starts row = (r, w')) : w'.shards = w.shards := by
  rcases World.write_cases h with ⟨rfl, -⟩ | ⟨-, rfl, -⟩ <;> rfl

lemma exec_works {r : c.Reply} (hc : c.writes = false) (h : exec x i c w = some (r, w')) : w.Works w' := by
  have hshard : exec x i c w = shardExec x c w → w.Works w' := fun heq => shardExec_works (heq.symm.trans h)
  cases c with
  | save term m | mirrorAndSave term m | saveMeta term m => cases hc
  | pending | lockedDatabases | queued | shardSet | placementDrift | databaseHomeShard | shards | leader term
  | ctxErr | sleep | attemptsLeft =>
    cases h
    exact .refl w
  | returned =>
    simp only [exec, Option.some.injEq, Prod.mk.injEq] at h
    obtain ⟨-, rfl⟩ := h
    split
    · exact (World.Works.refl w).noted
    · exact .refl w
  | _ => exact hshard rfl

/-- The row, the shards and what was seen are as they were. -/
structure World.Spares (w w' : World Q) : Prop where
  term : w.term ≤ w'.term := by exact .refl
  row : w'.row = w.row := by rfl
  shards : w'.shards = w.shards := by rfl
  pathFinds : w'.pathFinds = w.pathFinds := by rfl
  attempts : w'.attempts = w.attempts := by rfl
  cutovers : w'.cutovers = w.cutovers := by rfl
  concluded : w'.concluded = w.concluded := by rfl

lemma happen_spares (e : Event) (n : Nat) (w : World Q) : w.Spares (happen e n w).2 := by
  cases e with
  | takeLeaderTerm => exact { term := Nat.le_succ _ }
  | enqueue | cancel pass => exact {}
  | begin led catalog =>
    cases led with
    | true =>
      simp only [happen]
      split <;> exact {}
    | false => exact {}

/-- What a pass may count on between two of its calls. -/
structure Later (i : Nat) (s t : World Q) : Prop where
  term : s.term ≤ t.term := by exact .refl
  cancelled : s.cancelled i = true → t.cancelled i = true := by exact id

namespace Later

variable {i : Nat} {s t u : World Q}

lemma trans (h : Later i s t) (h' : Later i t u) : Later i s u :=
  ⟨Nat.le_trans h.term h'.term, h'.cancelled ∘ h.cancelled⟩

lemma of_keeps (h : s.Keeps t) (i : Nat) : Later i s t := ⟨Nat.le_of_eq h.term.symm, by rw [h.cancelled]; exact id⟩

lemma happen (e : Event) (n : Nat) (w : World Q) (i : Nat) : Later i w (Migration.happen e n w).2 := by
  refine { term := (happen_spares e n w).term, cancelled := fun h => ?_ }
  cases e with
  | enqueue | takeLeaderTerm => exact h
  | begin led catalog =>
    cases led with
    | true =>
      simp only [Migration.happen]
      split <;> exact h
    | false => exact h
  | cancel pass =>
    by_cases hi : i = pass
    · subst hi
      exact Function.update_self ..
    · exact (Function.update_of_ne hi ..).trans h

end Later

section

variable {b : Bounds (World Q) (Call Q) Luck Event} (L : Logic (host Q) b) (i : Nat) (p : Pass) (key : Key)
  {σ : Type} (run : σ → DDLMigration Q → Prog Q (Except Err ShardState × σ))

/-- The entry an attempt begins with. -/
def ShardMigration.begun (s : ShardMigration) : ShardMigration :=
  { s with attempts := s.attempts + 1, state := .running }

/-- The entry of an attempt that failed. -/
def ShardMigration.hit (s : ShardMigration) (m : DDLMigration Q) (e : Err) (state : ShardState) : ShardMigration :=
  { s with error := e.text, sqlState := e.code, ran := s.ran || mayHaveRun m (some e), state := state }

/-- What holds before an attempt, once it is recorded, once it has failed, and while it waits for the
next; and what holds of the entry the loop ends with. -/
structure RetrySpec where
  before : DDLMigration Q → ShardMigration → σ → World Q → Prop
  recorded : DDLMigration Q → ShardMigration → σ → World Q → Prop
  failed : DDLMigration Q → ShardMigration → σ → Err → World Q → Prop
  waiting : DDLMigration Q → ShardMigration → σ → World Q → Prop
  after : DDLMigration Q → ShardMigration → World Q → Prop
  before_later : ∀ {m s st w u}, L.rely i w u → before m s st w → before m s st u
  failed_later : ∀ {m s st e w u}, L.rely i w u → failed m s st e w → failed m s st e u
  waiting_later : ∀ {m s st w u}, L.rely i w u → waiting m s st w → waiting m s st u
  record : ∀ {m s st w}, before m s st w →
    L.Safe i (fun r u => match r with
      | .error .notLeaderTerm => after ((m.setEntry key s.begun).setEntry key s) s u
      | .error e => failed (m.setEntry key s.begun) s.begun st e.notSaved u
      | .ok _ => recorded (m.setEntry key s.begun) s.begun st u) (ask (.save p.term (m.setEntry key s.begun))) w
  runs : ∀ {m s st w}, recorded m s st w →
    L.Safe i (fun r u => match r with
      | (.ok outcome, _) => after m { s with state := outcome, error := "", sqlState := {} } u
      | (.error e, st) => failed m s st e u) (run st m) w
  stopped : ∀ {m s st e w}, failed m s st e w → w.cancelled i = true → after m s w
  ends : ∀ {m s st e w state}, failed m s st e w → (state = .skipped ∧ e.skipped = true ∨ state = .failed) →
    after m (s.hit m e state) w
  retry : ∀ {m s st e w}, failed m s st e w →
    L.Safe i (fun r u => match r with
      | .error .notLeaderTerm => after (m.setEntry key (s.hit m e .retrying)) (s.hit m e .retrying) u
      | _ => waiting (m.setEntry key (s.hit m e .retrying)) (s.hit m e .retrying) st u)
      (ask (.save p.term (m.setEntry key (s.hit m e .retrying)))) w
  woken : ∀ {m s st w}, waiting m s st w → w.cancelled i = true → after m s w
  lost : ∀ {x m s st w}, waiting m s st w → b.call x i (.leader p.term) w → x.yes = false → after m s w
  again : ∀ {m s st w}, waiting m s st w → before m s st w

namespace RetrySpec

variable {L i p key run} (R : RetrySpec L i p key run)

/-- What holds after one turn of the loop. -/
def turn (spent : Bool) : Attempt Q σ → World Q → Prop
  | .ends m s, w => R.after m s w
  | .again m s st, w => spent = false ∧ R.before m s st w

variable {m : DDLMigration Q} {s : ShardMigration} {st : σ} {w : World Q}

lemma safe_afterFailure {e : Err} {spent : Bool} (h : R.failed m s st e w) :
    L.Safe i (R.turn spent) (afterFailure p key spent m s st e) w := by
  unfold afterFailure
  refine safe_look_bind rfl fun x u done hu _ _ hexec => ?_
  cases hexec
  have hu := R.failed_later hu h
  cases hdone : u.cancelled i with
  | true => exact R.stopped hu hdone
  | false =>
    simp only [Bool.false_eq_true, if_false]
    split
    · rename_i hskip
      exact R.ends hu (.inl ⟨rfl, hskip⟩)
    split
    · exact R.ends hu (.inr rfl)
    split
    · exact R.ends hu (.inr rfl)
    rename_i hspent
    refine ((R.retry hu).imp fun r v hv => ?_).bind
    rcases r with (_ | _ | _) | _
    · exact hv
    all_goals
      refine safe_look_bind rfl fun x u r hu _ _ hexec => ?_
      have hu := R.waiting_later hu hv
      cases r with
      | error _ =>
        refine R.woken hu ?_
        simp only [exec, Option.some.injEq, Prod.mk.injEq, ite_eq_left_iff, reduceCtorEq, imp_false, not_not,
          Bool.and_eq_true] at hexec
        exact hexec.1.1
      | ok _ =>
        refine safe_look_bind rfl fun x t leads ht _ hx hexec => ?_
        have ht := R.waiting_later ht hu
        cases hexec
        cases hyes : x.yes with
        | true => exact ⟨by simpa using hspent, R.again ht⟩
        | false => exact R.lost ht hx hyes

lemma safe_attempt {spent : Bool} (h : R.before m s st w) :
    L.Safe i (R.turn spent) (attempt p key run spent m s st) w := by
  unfold attempt
  refine ((R.record h).imp fun r u hu => ?_).bind
  cases r with
  | ok a =>
    refine ((R.runs hu).imp fun r v hv => ?_).bind
    obtain ⟨result, st'⟩ := r
    cases result with
    | ok outcome => exact hv
    | error e => exact R.safe_afterFailure hv
  | error e =>
    cases e with
    | notLeaderTerm => exact hu
    | migrationHeld | other e => exact R.safe_afterFailure hu

lemma safe_attempts (left : Nat) (h : R.before m s st w) :
    L.Safe i (fun ms u => R.after ms.1 ms.2 u) (attempts p key run left m s st) w := by
  induction left generalizing m s st w with
  | zero =>
    refine ((R.safe_attempt h).imp fun a u ha => ?_).bind
    cases a with
    | ends m s => exact ha
    | again m s st => cases ha.1
  | succ left ih =>
    refine ((R.safe_attempt h).imp fun a u ha => ?_).bind
    cases a with
    | ends m s => exact ha
    | again m s st => exact ih ha.2

/-- The whole loop, whatever the clock allows it. -/
lemma safe_retrying (h : R.before m s st w) :
    L.Safe i (fun ms u => R.after ms.1 ms.2 u) (retrying p key run m s st) w := by
  refine safe_look_bind rfl fun x u left hu _ _ _ => ?_
  exact R.safe_attempts left (R.before_later hu h)

end RetrySpec

end

end PgShard.Migration
