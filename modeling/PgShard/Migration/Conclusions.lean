import PgShard.Migration.Swapped

/-!
# What a rewrite concludes

Two readings of a rewrite's progress, with the runs on which they fail. The step of an entry is taken for the
number of phases that have come to an end on its shard, and a working column that is not there for a cutover
that committed.
-/

namespace PgShard.Migration

open Interleave

variable {Q : Type}

instance (w : World Q) : Decidable w.unfailed :=
  inferInstanceAs (Decidable (w.row.state = .running → ∀ key ∈ w.row.keys, (w.row.perShard key).state ≠ .failed))

instance (w : World Q) : Decidable w.unreverted :=
  inferInstanceAs (Decidable (w.row.state = .running → ∀ key ∈ w.row.keys, (w.shards key).reverted = false))

/-- A loss of leadership is noticed late, and no pass takes up a running row with a shard that has failed. -/
def takesUp (x : Luck) : Call Q → World Q → Bool
  | .leader term, w => x.yes || !w.accepts term
  | .pending, w => w.unfailed
  | _, _ => true

def phaseBounds : Bounds (World Q) (Call Q) Luck Event := ⟨fun x _ c w => takesUp x c w, fun _ _ => True⟩

lemma late_of_takesUp {x : Luck} {c : Call Q} {w : World Q} (h : takesUp x c w = true) : noticedLate x c w := by
  cases c with
  | leader term =>
    intro hno
    simpa [takesUp, hno] using h
  | _ => trivial

lemma phaseBounds_guards : Guards False (phaseBounds (Q := Q)) where
  late h := late_of_takesUp h
  loads h := of_decide_eq_true h
  reverts hs := hs.elim
  owned hs := hs.elim
  finds hs := hs.elim
  led hs := hs.elim

/-- When a shard cuts over, every shard has had its column filled in, and the step of an entry is never ahead
of the phases that have come to an end on its shard. -/
theorem cutover_after_phases (w : World Q) (hstrategy : w.row.strategy = .rewrite) (hqueued : w.row.state = .queued)
    (hnew : w.row.keys = []) (hnone : w.cutovers = []) (moves : List (Move Luck Event))
    (hmoves : phaseBounds.Along (host Q) ⟨w, []⟩ moves) :
    let u := (Tasks.run (host Q) ⟨w, []⟩ moves).store
    (∀ c ∈ u.cutovers, c.2 = []) ∧
      ∀ key ∈ u.row.keys, ∀ phase < (u.row.perShard key).step, phase ∈ (u.shards key).phases := by
  have hstart := rewritten_start False ⟨hstrategy, hqueued, hnew, hnone⟩ False.elim
  have hrun := rewritten_run phaseBounds_guards hstart moves hmoves
  exact ⟨hrun.cutovers, hrun.phased⟩

instance (x : Luck) (i : Nat) (c : Call Q) (w : World Q) : Decidable (phaseBounds.call x i c w) :=
  inferInstanceAs (Decidable (takesUp x c w = true))

instance (e : Event) (w : World Q) : Decidable (phaseBounds.world e w) := .isTrue trivial

/-- A pass starts a rewrite on the shards and makes so many calls on the way through its phases. -/
def rewriteFor (ids : List Int) (calls : Nat) : List (Move Luck Event) :=
  .world (.begin true false) :: undisturbed 0 3 ++ .act 0 { ids := ids } :: undisturbed 0 1 ++
    .act 0 { columns := ["c"] } :: undisturbed 0 (3 + calls)

def retyping : DDLMigration Unit :=
  { kind := "ALTER TABLE", strategy := .rewrite, rewrite := { schema := "public", table := "t", column := "c" } }

theorem cutover_after_phases_of_two :
    let u := (Tasks.run (host Unit) ⟨{ row := retyping }, []⟩ (rewriteFor [0, 1] 66)).store
    u.row.state = .complete ∧ u.cutovers.length = 2 ∧ (∀ c ∈ u.cutovers, c.2 = []) ∧
      ∀ key ∈ u.row.keys, ∀ phase < (u.row.perShard key).step, phase ∈ (u.shards key).phases :=
  ⟨by decide +kernel, by decide +kernel, cutover_after_phases _ rfl rfl rfl rfl (rewriteFor [0, 1] 66) (by decide +kernel)⟩

/-- The column is not filled in when the process notices the loss of its leadership, before a successor has
taken the term. The step moves on, and the successor cuts over. -/
theorem cutover_before_backfill :
    let moves := rewriteFor [0] 13 ++ [.act 0 { attemptsLeft := 1 }, .act 0 {}, .act 0 { err := some lockTimeout }] ++
      undisturbed 0 3 ++ .act 0 { yes := false } :: undisturbed 0 2 ++ [.act 0 { yes := false }, .world .takeLeaderTerm,
        .world (.begin true false)] ++ undisturbed 1 8
    let u := (Tasks.run (host Unit) ⟨{ row := retyping }, []⟩ moves).store
    u.cutovers = [(.shard 0, [.shard 0])] ∧ (u.shards (.shard 0)).cut = true ∧
      (u.shards (.shard 0)).phases = [0, 1, rewriteCutover] ∧ (u.row.perShard (.shard 0)).step = rewriteCutover := by
  decide +kernel

/-! ### A working column that is missing -/

/-- What is left out: passes that work on the shards without leading, a running row with a shard that has
failed or was reverted, and a table the controller's own session does not find. -/
def keptApart (x : Luck) (i : Nat) : Call Q → World Q → Bool
  | .leader term, w => x.yes || !w.accepts term
  | .pending, w => decide w.unfailed && decide w.unreverted
  | .cutoverCommitted m _, w => decide (w.owner = some i) && w.finds m
  | c, w => !c.onShard || decide (w.owner = some i)

def apartBounds : Bounds (World Q) (Call Q) Luck Event := ⟨fun x i c w => keptApart x i c w, fun e _ => e.led⟩

lemma apartBounds_guards : Guards True (apartBounds (Q := Q)) where
  late {x i c w} h := by
    cases c with
    | leader term =>
      intro hno
      simpa [apartBounds, keptApart, hno] using h
    | _ => trivial
  loads {x i w} h := by
    have h : (decide w.unfailed && decide w.unreverted) = true := h
    exact of_decide_eq_true (Bool.and_eq_true_iff.mp h).1
  reverts {x i w} _ h := by
    have h : (decide w.unfailed && decide w.unreverted) = true := h
    exact of_decide_eq_true (Bool.and_eq_true_iff.mp h).2
  owned {x i c w} _ hc h := by
    have h : keptApart x i c w = true := h
    cases c with
    | pending | lockedDatabases | shardSet | placementDrift | queued | databaseHomeShard | shards | save term m
    | mirrorAndSave term m | saveMeta term m | leader term | ctxErr | sleep | attemptsLeft | returned
    | rewriteColumns m => cases hc
    | cutoverCommitted m key => exact of_decide_eq_true (Bool.and_eq_true_iff.mp h).1
    | _ => simpa [keptApart, Call.onShard] using h
  finds {x i m key w} _ h := by
    have h : (decide (w.owner = some i) && w.finds m) = true := h
    exact (Bool.and_eq_true_iff.mp h).2
  led {led catalog w} _ h := h

/-- Whenever a shard whose working column is missing is taken to have cut over, it has, and a rewrite that is
recorded complete has cut over on every shard. -/
theorem missing_column_means_cut (w : World Q) (hterm : 0 < w.term) (hstrategy : w.row.strategy = .rewrite)
    (hqueued : w.row.state = .queued) (hnew : w.row.keys = []) (hclean : ∀ key, w.shards key = {})
    (hnone : w.cutovers = []) (hnone' : w.concluded = []) (moves : List (Move Luck Event))
    (hmoves : apartBounds.Along (host Q) ⟨w, []⟩ moves) :
    let u := (Tasks.run (host Q) ⟨w, []⟩ moves).store
    (∀ c ∈ u.concluded, c.2 = true) ∧
      (u.row.state = .complete → ∀ key ∈ u.row.keys, (u.shards key).cut = true) := by
  have htraced : Traced w := by
    refine ⟨hterm, fun c hc => ?_, fun key => ?_, fun key hb => ?_, fun key hr => ?_⟩
    · rw [hnone'] at hc
      cases hc
    · rw [hclean key]
      exact ⟨nofun, nofun⟩
    · rw [hclean key] at hb
      rcases hb with hb | hb
      · exact absurd rfl hb
      · cases hb
    · rw [hclean key] at hr
      cases hr
  have hstart := rewritten_start True ⟨hstrategy, hqueued, hnew, hnone⟩ fun _ => htraced
  have hrun := rewritten_run apartBounds_guards hstart moves hmoves
  refine ⟨(hrun.traced trivial).concluded, fun hcomplete key hkey => ?_⟩
  exact ((hrun.traced trivial).shards key).swapped (hrun.phased key hkey _ (hrun.whole hcomplete key hkey))

instance (x : Luck) (i : Nat) (c : Call Q) (w : World Q) : Decidable (apartBounds.call x i c w) :=
  inferInstanceAs (Decidable (keptApart x i c w = true))

instance (e : Event) (w : World Q) : Decidable (apartBounds.world e w) := inferInstanceAs (Decidable (e.led = true))

/-- The cutover commits on one shard, and its answer is lost. -/
def answerLost : List (Move Luck Event) :=
  rewriteFor [0] 19 ++ [.act 0 { attemptsLeft := 1 }] ++ undisturbed 0 2 ++
    .act 0 { err := some { text := "connection reset", code := ⟨"08", "006"⟩ }, commits := true } :: undisturbed 0 16

theorem missing_column_means_cut_twice :
    let u := (Tasks.run (host Unit) ⟨{ row := retyping }, []⟩ answerLost).store
    u.row.state = .complete ∧ u.concluded = [(.shard 0, true)] ∧ (∀ c ∈ u.concluded, c.2 = true) ∧
      (u.row.state = .complete → ∀ key ∈ u.row.keys, (u.shards key).cut = true) :=
  ⟨by decide +kernel, by decide +kernel, missing_column_means_cut _ (by decide) rfl rfl rfl (fun _ => rfl) rfl rfl
    answerLost (by decide +kernel)⟩

/-- The cutover fails on one of two shards, both are reverted, and the save that says so is lost. The next
pass passes over the shard that has failed, takes the other for one that cut over, and records the rewrite
complete. -/
theorem reverted_taken_for_cut :
    let moves := rewriteFor [0, 1] 40 ++
      .act 0 { err := some { text := "must be owner of table t", code := ⟨"42", "501"⟩ } } :: undisturbed 0 7 ++
      .act 0 { save := .lost { text := "connection reset", code := ⟨"08", "006"⟩ } } :: undisturbed 0 1 ++
      .world (.begin true false) :: undisturbed 1 17
    let u := (Tasks.run (host Unit) ⟨{ row := retyping }, []⟩ moves).store
    u.row.state = .complete ∧ u.concluded = [(.shard 1, false)] ∧ (u.shards (.shard 0)).cut = false ∧
      (u.shards (.shard 1)).cut = false := by
  decide +kernel

end PgShard.Migration
