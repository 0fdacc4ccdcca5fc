import PgShard.Migration.Retrying

/-!
# Where a migration in steps resumes

The entry of a shard is written applied after each of its steps, and a later pass takes an applied entry for
a shard that is finished. With one step the two agree.
-/

namespace PgShard.Migration

open Interleave

variable {Q : Type}

/-- An entry that is applied has all steps behind it, in their order; one that is not at its end has none. -/
structure Whole (steps : List Q) (s : ShardMigration) (d : ShardData Q) : Prop where
  applied : s.state = .applied → s.step = steps.length ∧ steps.Sublist d.done
  start : s.state.final = false → s.step = 0

lemma Whole.grows {steps : List Q} {s : ShardMigration} {d d' : ShardData Q} (h : Whole steps s d)
    (hd : d.Grows d') : Whole steps s d' :=
  ⟨fun happlied => ⟨(h.applied happlied).1, (h.applied happlied).2.trans hd.done.sublist⟩, h.start⟩

lemma Whole.of_failed {steps : List Q} {s : ShardMigration} {d : ShardData Q} (h : s.state = .failed) :
    Whole steps s d :=
  ⟨fun happlied => (by rw [h] at happlied; cases happlied), fun hopen => by rw [h] at hopen; cases hopen⟩

structure DDLMigration.Resumable (steps : List Q) (m : DDLMigration Q) (w : World Q) : Prop where
  strategy : m.strategy = .multistep
  given : m.steps = steps
  whole : ∀ key ∈ m.keys, Whole steps (m.perShard key) (w.shards key)

namespace DDLMigration.Resumable

variable {steps : List Q} {m m' : DDLMigration Q} {w w' : World Q}

lemma grows (h : m.Resumable steps w) (hw : w.Grows w') : m.Resumable steps w' :=
  ⟨h.strategy, h.given, fun key hkey => (h.whole key hkey).grows (hw key)⟩

lemma setEntry {key : Key} {s : ShardMigration} (h : m.Resumable steps w) (honly : m.Only key m')
    (hs : Whole steps s (w.shards key)) : (m'.setEntry key s).Resumable steps w := by
  refine ⟨honly.strategy.trans h.strategy, honly.steps.trans h.given, fun key' hkey => ?_⟩
  by_cases hk : key' = key
  · subst hk
    rw [entry_setEntry]
    exact hs
  · rw [entry_setEntry_ne hk, honly.entries key' hk]
    exact h.whole key' (honly.keys ▸ hkey)

lemma tally (h : m.Resumable steps w) : (tally m).Resumable steps w := by
  unfold Migration.tally
  split
  · exact { h with }
  · split
    · exact { h with }
    · split
      · exact { h with }
      · exact ⟨h.strategy, h.given, fun _ _ => .of_failed rfl⟩

end DDLMigration.Resumable

def resumeLogic (steps : List Q) : Logic (host Q) Bounds.all where
  inv w := w.row.Resumable steps w
  rely _ := World.Grows
  rely_refl _ := World.Grows.refl
  rely_trans := World.Grows.trans

section

variable {steps : List Q} {i : Nat} {s : World Q}

lemma resume_call {c : Call Q} (hc : c.writes = false) {P : c.Reply → World Q → Prop}
    (h : ∀ x t r u, s.Grows t → exec x i c t = some (r, u) → P r u) : (resumeLogic steps).Safe i P (ask c) s := by
  intro t ht hinv x r u _ hexec
  obtain ⟨hkeeps, hgrows⟩ := exec_works hc hexec
  refine ⟨?_, fun j _ => hgrows, h x t r u ht hexec⟩
  change u.row.Resumable steps u
  rw [hkeeps.row]
  exact DDLMigration.Resumable.grows hinv hgrows

lemma write_resumable {w w' : World Q} {x : SaveLuck} {term : Nat} {starts : Bool} {m : DDLMigration Q}
    {r : Except SaveError Unit} (h : w.write x term starts (w.saved m) = (r, w')) (hinv : w.row.Resumable steps w)
    (hm : m.Resumable steps w) : w'.row.Resumable steps w' := by
  rcases World.write_cases h with ⟨rfl, -⟩ | ⟨-, rfl, -⟩
  · exact hinv
  · exact ⟨hinv.strategy, hinv.given, hm.whole⟩

lemma resume_save {term : Nat} {m : DDLMigration Q} (hm : m.Resumable steps s) :
    (resumeLogic steps).Safe i (fun _ u => s.Grows u) (ask (.save term m)) s := by
  intro t ht hinv x r u _ hexec
  have hgrows : t.Grows u := .of_eq (World.write_shards (Option.some.inj hexec))
  exact ⟨write_resumable (Option.some.inj hexec) hinv (hm.grows ht), fun j _ => hgrows, ht.trans hgrows⟩

lemma resume_mirror {term : Nat} {m : DDLMigration Q} (hm : m.Resumable steps s) :
    (resumeLogic steps).Safe i (fun _ _ => True) (ask (.mirrorAndSave term m)) s := by
  intro t ht hinv x r u _ hexec
  exact ⟨write_resumable (Option.some.inj hexec) hinv (hm.grows ht),
    fun j _ => .of_eq (World.write_shards (Option.some.inj hexec)), trivial⟩

end

section

variable {steps : List Q} {i : Nat} {p : Pass} {key : Key} {m₀ m : DDLMigration Q} {s : ShardMigration} {w : World Q}

/-- What the loop has in hand: the shard is at its first step, and applied only if that has come to an end. -/
structure AtFirst (key : Key) (st : Q) (m₀ m : DDLMigration Q) (s : ShardMigration) (w : World Q) : Prop where
  good : m₀.Resumable [st] w
  only : m₀.Only key m
  step : s.step = 0
  applied : s.state = .applied → st ∈ (w.shards key).done

variable {st : Q}

lemma AtFirst.grows {u : World Q} (h : AtFirst key st m₀ m s w) (hu : w.Grows u) : AtFirst key st m₀ m s u :=
  ⟨h.good.grows hu, h.only, h.step, fun happlied => (hu key).done.subset (h.applied happlied)⟩

lemma AtFirst.entry (h : AtFirst key st m₀ m s w) (s' : ShardMigration) (hstep : s'.step = s.step)
    (hstate : s'.state ≠ .applied) : AtFirst key st m₀ (m.setEntry key s') s' w :=
  ⟨h.good, h.only.setEntry s', hstep.trans h.step, fun happlied => absurd happlied hstate⟩

/-- Such an entry may be written as long as it is not applied. -/
lemma AtFirst.writable (h : AtFirst key st m₀ m s w) (s' : ShardMigration) (hstep : s'.step = s.step)
    (hstate : s'.state ≠ .applied) : (m.setEntry key s').Resumable [st] w :=
  h.good.setEntry h.only ⟨fun happlied => absurd happlied hstate, fun _ => hstep.trans h.step⟩

def firstStep (key : Key) (st : Q) (_ : Unit) (m : DDLMigration Q) : Prog Q (Except Err ShardState × Unit) := do
  return (← ask (.runStep m key st), ())

lemma exec_runStep {x : Luck} {r : Except Err ShardState} {u : World Q} {outcome : ShardState}
    (h : exec x i (.runStep m key st) w = some (r, u)) (hok : r = .ok outcome) : st ∈ (u.shards key).done := by
  cases h
  cases herr : x.err with
  | some e =>
    simp only [Luck.plain, herr, Option.map_some, answer] at hok
    cases hok
  | none => simp

/-- The loop on the first step. -/
def firstSpec (m₀ : DDLMigration Q) : RetrySpec (resumeLogic [st]) i p key (firstStep key st) where
  before m s _ w := AtFirst key st m₀ m s w
  recorded m s _ w := AtFirst key st m₀ m s w
  failed m s _ _ w := AtFirst key st m₀ m s w
  waiting m s _ w := AtFirst key st m₀ m s w
  after m s w := AtFirst key st m₀ m s w
  before_later hu h := h.grows hu
  failed_later hu h := h.grows hu
  waiting_later hu h := h.grows hu
  record {m s _ w} h := by
    refine (resume_save (h.writable s.begun rfl nofun)).imp fun r u hu => ?_
    have hnext := (h.grows hu).entry s.begun rfl nofun
    split
    · exact ⟨hnext.good, hnext.only.setEntry s, h.step, (h.grows hu).applied⟩
    · exact hnext
    · exact hnext
  runs {m s _ w} h := by
    refine Logic.Safe.bind (resume_call rfl fun x t r u ht hexec => ?_)
    have hnext := h.grows (ht.trans (exec_works rfl hexec).2)
    cases r with
    | ok outcome => exact ⟨hnext.good, hnext.only, hnext.step, fun _ => exec_runStep hexec rfl⟩
    | error e => exact hnext
  stopped h _ := h
  ends h hstate := ⟨h.good, h.only, h.step, fun happlied => by
    rcases hstate with ⟨rfl, -⟩ | rfl <;> cases happlied⟩
  retry {m s _ e w} h := by
    refine (resume_save (h.writable (s.hit m e .retrying) rfl nofun)).imp fun r u hu => ?_
    have hnext := (h.grows hu).entry (s.hit m e .retrying) rfl nofun
    split <;> exact hnext
  woken h _ := h
  lost h _ _ := h
  again h := h

lemma resume_applyOn (hlen : steps.length ≤ 1) (hm : m.Resumable steps w) (hkey : key ∈ m.keys)
    (hopen : (m.perShard key).state.final = false) :
    (resumeLogic steps).Safe i (fun ms u => m.Only key ms.1 ∧ (ms.1.setEntry key ms.2).Resumable steps u)
      (applyOn p key m (m.perShard key)) w := by
  have hwhole := hm.whole key hkey
  unfold applyOn
  rw [if_neg (by rw [hm.strategy]; decide), hm.given, hwhole.start hopen, List.drop_zero]
  match steps, hlen with
  | [], _ => exact ⟨.refl key m, hm.setEntry (.refl key m) hwhole⟩
  | [st], _ =>
    have hfirst : AtFirst key st m m (m.perShard key) w := by
      refine ⟨hm, .refl key m, hwhole.start hopen, fun happlied => ?_⟩
      rw [happlied] at hopen
      cases hopen
    refine Logic.Safe.bind (((firstSpec m).safe_retrying hfirst).imp fun ms u hu => ?_)
    obtain ⟨m', s'⟩ := ms
    dsimp only at hu ⊢
    split
    · rename_i hstate
      exact ⟨hu.only, hu.writable _ rfl hstate⟩
    · rename_i hstate
      have hdone : st ∈ (u.shards key).done := hu.applied (by simpa using hstate)
      have hsound : Whole [st] { s' with step := s'.step + 1 } (u.shards key) := by
        refine ⟨fun _ => ⟨congrArg Nat.succ hu.step, List.singleton_sublist.mpr hdone⟩, fun hno => ?_⟩
        have happlied : s'.state = .applied := by simpa using hstate
        rw [show ({ s' with step := s'.step + 1 } : ShardMigration).state = s'.state from rfl, happlied] at hno
        cases hno
      refine Logic.Safe.bind ((resume_save (hu.good.setEntry hu.only hsound)).imp fun r v hv => ?_)
      have hend : m.Only key (m'.setEntry key { s' with step := s'.step + 1 }) ∧
          ((m'.setEntry key { s' with step := s'.step + 1 }).setEntry key { s' with step := s'.step + 1 }).Resumable [st] v :=
        ⟨hu.only.setEntry _, (hu.good.grows hv).setEntry (hu.only.setEntry _) (hsound.grows (hv key))⟩
      split <;> exact hend

end

section

variable {steps : List Q}

def resumeShards (hlen : steps.length ≤ 1) (i : Nat) (p : Pass) : ShardsSpec (resumeLogic steps) i p where
  good m w := m.Resumable steps w
  good_later h hm := hm.grows h
  saves hm := (resume_save hm).imp fun _ _ hu => hm.grows hu
  direct hm := by
    rw [hm.strategy]
    decide
  gaveUp key hm _ := hm.setEntry (.refl key _) (.of_failed rfl)
  applies hm _ hkey hopen := (resume_applyOn hlen hm hkey hopen).imp fun _ _ h => ⟨h.1, .inl ⟨h.2, trivial⟩⟩
  tallied hm _ := hm.tally
  mirrors hm := resume_mirror hm

def resumeSpec (hlen : steps.length ≤ 1) (i : Nat) (p : Pass) : PassSpec (resumeLogic steps) i p where
  toRowSpec := (resumeShards hlen i p).toRowSpec
  here _ := True
  idle _ := True
  here_later _ := id
  idle_later _ := id
  loaded _ hinv _ hfound := (pendingRow_some hfound).1 ▸ hinv
  unloaded _ _ _ := trivial
  failed _ hm := { hm with }
  rehome _ hm := { hm with }
  replan _ _ hm := { hm with }
  driven m w := m.Resumable steps w
  begins {m w} serving keys _ hm := by
    have hfresh : (m.fresh serving keys).Resumable steps w := ⟨hm.strategy, hm.given, fun _ _ => ⟨nofun, fun _ => rfl⟩⟩
    exact (resume_save hfresh).imp fun _ _ hu _ => hfresh.grows hu
  resumes hm _ := hm
  sweeps _ _ := resume_call rfl fun _ _ _ _ _ _ => trivial
  returns _ := resume_call rfl fun _ _ _ _ _ _ => trivial
  drives hm hrunning := (resumeShards hlen i p).safe_driveBegun hm hrunning

lemma worldSafe_resume (hlen : steps.length ≤ 1) : (resumeLogic steps).WorldSafe := by
  intro e n w hinv _
  have hgrows : w.Grows (happen e n w).2 := .of_eq (happen_spares e n w).shards
  refine ⟨?_, fun j _ => hgrows, fun task htask => ?_⟩
  · change (happen e n w).2.row.Resumable steps (happen e n w).2
    rw [(happen_spares e n w).row]
    exact DDLMigration.Resumable.grows hinv hgrows
  · rcases happen_begins htask with ⟨catalog, -, rfl, -⟩ | ⟨catalog, -, rfl, -⟩
    · exact (resumeSpec hlen n _).safe_runOnce trivial
    · exact (resumeSpec hlen n _).safe_runOnce trivial

lemma applied_whole (hlen : steps.length ≤ 1) (w : World Q) (hstrategy : w.row.strategy = .multistep)
    (hsteps : w.row.steps = steps) (hnew : w.row.keys = []) (moves : List (Move Luck Event)) :
    (resumeLogic steps).Holds (Tasks.run (host Q) ⟨w, []⟩ moves) := by
  have hstart : (resumeLogic steps).Holds (⟨w, []⟩ : Tasks _ _ _) := by
    refine ⟨⟨hstrategy, hsteps, fun key hkey => ?_⟩, fun i p hp => nomatch hp⟩
    rw [hnew] at hkey
    cases hkey
  exact hstart.run (worldSafe_resume hlen) (Bounds.along_all _ _ _)

/-- A pass on one shard, up to the write that follows the first step. -/
def firstStepDone : List (Move Luck Event) :=
  .world (.begin true false) :: undisturbed 0 3 ++ .act 0 { ids := [0] } :: undisturbed 0 6

/-- The first of several steps leaves the shard recorded as applied. -/
lemma applied_after_first (st st' : Q) (sts : List Q) :
    let row : DDLMigration Q := { kind := "ALTER TABLE", strategy := .multistep, steps := st :: st' :: sts }
    let u := (Tasks.run (host Q) ⟨{ row := row }, []⟩ firstStepDone).store
    u.row.keys = [.shard 0] ∧ (u.row.perShard (.shard 0)).state = .applied ∧ (u.row.perShard (.shard 0)).step = 1 := by
  intro row u
  have hu : u = (Tasks.run (host Q) ⟨{ row := row }, []⟩ firstStepDone).store := rfl
  simp only [firstStepDone, undisturbed, List.replicate, List.cons_append, List.nil_append] at hu
  -- the row is loaded and started
  rw [Tasks.run_world rfl, Tasks.run_act rfl rfl, Tasks.run_act rfl rfl, Tasks.run_act rfl rfl,
    Tasks.run_act rfl rfl, Tasks.run_act rfl rfl] at hu
  -- the first step runs
  rw [Tasks.run_act rfl rfl, Tasks.run_act rfl rfl, Tasks.run_act rfl rfl, Tasks.run_act rfl rfl,
    Tasks.run_act rfl rfl] at hu
  rw [hu]
  exact ⟨rfl, rfl, rfl⟩

/-- In every run an entry that is recorded as applied has all its steps behind it just when there are not
two of them. -/
theorem applied_whole_iff (steps : List Q) :
    (∀ w : World Q, w.row.strategy = .multistep → w.row.steps = steps → w.row.state = .queued → w.row.keys = [] →
      ∀ moves : List (Move Luck Event), let u := (Tasks.run (host Q) ⟨w, []⟩ moves).store
        ∀ key ∈ u.row.keys, (u.row.perShard key).state = .applied →
          (u.row.perShard key).step = steps.length ∧ steps.Sublist (u.shards key).done) ↔
      steps.length ≤ 1 := by
  constructor
  · intro h
    match steps with
    | [] => exact Nat.zero_le 1
    | [_] => exact Nat.le_refl 1
    | st :: st' :: sts =>
      obtain ⟨hkeys, happlied, hstep⟩ := applied_after_first st st' sts
      have hwhole := h { row := { kind := "ALTER TABLE", strategy := .multistep, steps := st :: st' :: sts } }
        rfl rfl rfl rfl firstStepDone (.shard 0) (hkeys ▸ List.mem_singleton_self _) happlied
      have hlen := hstep.symm.trans hwhole.1
      simp at hlen
  · intro hlen w hstrategy hsteps _ hnew moves
    exact fun key hkey => ((applied_whole hlen w hstrategy hsteps hnew moves).1.whole key hkey).applied

end

/-- The controller stops after the first of two steps, and the next one records the migration complete. -/
theorem complete_after_first_step :
    let row : DDLMigration Bool := { kind := "ALTER TABLE", strategy := .multistep, steps := [false, true] }
    let moves := firstStepDone ++ [.stop 0, .world .takeLeaderTerm, .world (.begin true false)] ++ undisturbed 1 4
    let u := (Tasks.run (host Bool) ⟨{ row := row }, []⟩ moves).store
    u.row.state = .complete ∧ u.row.keys = [.shard 0] ∧ (u.row.perShard (.shard 0)).state = .applied ∧
      (u.row.perShard (.shard 0)).step = 1 ∧ (u.shards (.shard 0)).done = [false] := by
  decide +kernel

end PgShard.Migration
