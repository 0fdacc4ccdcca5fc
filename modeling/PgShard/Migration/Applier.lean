import PgShard.Interleave.Tasks
import PgShard.Migration.Entry

/-!
# The applier

A pass of the applier loads the migration and drives it, shard by shard. It writes its progress under the
leadership term it began with, and looks now and then whether it still leads.
-/

namespace PgShard.Migration

open Interleave

variable {Q : Type}

/-- What a pass asks of the catalog, of its own process and of the shards. -/
inductive Call (Q : Type)
  | pending
  | lockedDatabases
  | shardSet
  | placementDrift
  | queued
  | databaseHomeShard
  | shards
  | save (term : Nat) (m : DDLMigration Q)
  | mirrorAndSave (term : Nat) (m : DDLMigration Q)
  | saveMeta (term : Nat) (m : DDLMigration Q)
  -- the process
  | leader (term : Nat)
  | ctxErr
  | sleep
  | attemptsLeft
  | returned
  -- the shards
  | step (m : DDLMigration Q) (key : Key) (resumed : Bool)
  | runStep (m : DDLMigration Q) (key : Key) (st : Q)
  | rewriteColumns (m : DDLMigration Q)
  | rewritePhase (m : DDLMigration Q) (key : Key) (phase : Nat)
  | columnExists (m : DDLMigration Q) (key : Key)
  | swapColumns (m : DDLMigration Q) (key : Key)
  | cutoverCommitted (m : DDLMigration Q) (key : Key)
  | revertRewrite (m : DDLMigration Q) (key : Key)
  | sweepShard (key : Key)

/-- A pending migration and whether there are others; whether something holds or exists; how a write or a
statement ended. -/
abbrev Call.Reply : Call Q → Type
  | .pending => Except Err (Option (DDLMigration Q) × Bool)
  | .lockedDatabases | .queued => Except Err Bool
  | .shardSet => Except Err String
  | .placementDrift => Except Err (Option String)
  | .databaseHomeShard => Except Err (Option Int)
  | .shards => Except Err (List Int)
  | .save _ _ | .mirrorAndSave _ _ | .saveMeta _ _ => Except SaveError Unit
  | .leader _ | .ctxErr => Bool
  | .sleep => Except Unit Unit
  | .attemptsLeft => Nat
  | .returned => Unit
  | .step _ _ _ | .runStep _ _ _ => Except Err ShardState
  | .rewriteColumns _ => Except Err (List String)
  | .rewritePhase _ _ _ | .swapColumns _ _ | .revertRewrite _ _ | .sweepShard _ => Except Err Unit
  | .columnExists _ _ | .cutoverCommitted _ _ => Except Err Bool

abbrev Prog (Q A : Type) := Task (Call Q) Call.Reply A

abbrev ask (c : Call Q) : Prog Q c.Reply := Task.ask c

/-- A pass: the leadership term it latched, zero for none, and whether the applier reaches the catalog
group too. -/
structure Pass where
  term : Nat
  catalog : Bool := false

variable (p : Pass)

/-- How an attempt leaves the loop, or goes on. -/
inductive Attempt (Q σ : Type)
  | ends (m : DDLMigration Q) (s : ShardMigration)
  | again (m : DDLMigration Q) (s : ShardMigration) (st : σ)

section

variable {σ : Type} (key : Key) (run : σ → DDLMigration Q → Prog Q (Except Err ShardState × σ))

/-- What becomes of an attempt that failed: `spent` says that the retries have taken their time. -/
def afterFailure (spent : Bool) (m : DDLMigration Q) (s : ShardMigration) (st : σ) (e : Err) :
    Prog Q (Attempt Q σ) := do
  if ← ask .ctxErr then return .ends m s
  let s := { s with error := e.text, sqlState := e.code, ran := s.ran || mayHaveRun m (some e) }
  if e.skipped then return .ends m { s with state := .skipped }
  if !e.transient then return .ends m { s with state := .failed }
  if spent then return .ends m { s with state := .failed }
  let s := { s with state := .retrying }
  let m := m.setEntry key s
  match ← ask (.save p.term m) with
  | .error .notLeaderTerm => return .ends m s
  | _ =>
    match ← ask .sleep with
    | .error _ => return .ends m s
    | .ok _ => if ← ask (.leader p.term) then return .again m s st else return .ends m s

/-- One turn of the loop. The step runs only once the catalog has recorded that it is about to. -/
def attempt (spent : Bool) (m : DDLMigration Q) (prior : ShardMigration) (st : σ) : Prog Q (Attempt Q σ) := do
  let s := { prior with attempts := prior.attempts + 1, state := .running }
  let m := m.setEntry key s
  match ← ask (.save p.term m) with
  | .error .notLeaderTerm => return .ends (m.setEntry key prior) prior
  | .error e => afterFailure p key spent m s st e.notSaved
  | .ok _ =>
    match ← run st m with
    | (.ok outcome, _) => return .ends m { s with state := outcome, error := "", sqlState := {} }
    | (.error e, st) => afterFailure p key spent m s st e

def attempts : Nat → DDLMigration Q → ShardMigration → σ → Prog Q (DDLMigration Q × ShardMigration)
  | 0, m, s, st => do
    match ← attempt p key run true m s st with
    | .ends m s | .again m s _ => return (m, s)
  | left + 1, m, s, st => do
    match ← attempt p key run false m s st with
    | .ends m s => return (m, s)
    | .again m s st => attempts left m s st

/-- Runs one shard step until it ends; the clock decides how often it can be tried again. -/
def retrying (m : DDLMigration Q) (s : ShardMigration) (st : σ) : Prog Q (DDLMigration Q × ShardMigration) := do
  let left ← ask .attemptsLeft
  attempts p key run left m s st

end

def applySteps (key : Key) : List Q → DDLMigration Q → ShardMigration → Prog Q (DDLMigration Q × ShardMigration)
  | [], m, s => return (m, s)
  | st :: sts, m, s => do
    let (m, s) ← retrying p key (fun (_ : Unit) m => do return (← ask (.runStep m key st), ())) m s ()
    if s.state ≠ .applied then return (m, s)
    let s := { s with step := s.step + 1 }
    let m := m.setEntry key s
    match ← ask (.save p.term m) with
    | .error .notLeaderTerm => return (m, s)
    | _ => applySteps key sts m s

/-- Whether an attempt on the shard may have reached the server and committed, from its entry alone. -/
def ShardMigration.resumed (s : ShardMigration) : Bool := s.state = .running || s.state = .retrying && s.ran

/-- The error of a result. -/
def failure {A : Type} : Except Err A → Option Err
  | .error e => some e
  | .ok _ => none

def applyOn (key : Key) (m : DDLMigration Q) (s : ShardMigration) : Prog Q (DDLMigration Q × ShardMigration) :=
  if m.strategy ≠ .multistep then
    retrying p key (fun resumed m => do
      let out ← ask (.step m key resumed)
      return (out, resumed || mayHaveRun m (failure out))) m s s.resumed
  else applySteps p key (m.steps.drop s.step) m s

def ShardState.final : ShardState → Bool
  | .applied | .skipped | .failed => true
  | _ => false

def driveShards : List Key → DDLMigration Q → Prog Q (Option (DDLMigration Q))
  | [], m => return some m
  | key :: keys, m =>
    let s := m.perShard key
    if s.state.final then driveShards keys m
    else if key = .catalog && m.anyFailed then
      driveShards keys (m.setEntry key { s with state := .failed, error := "not applied: a shard failed" })
    else do
      if !(← ask (.leader p.term)) then return none
      let (m, s) ← applyOn p key m s
      if ← ask .ctxErr then return none
      let m := m.setEntry key s
      match ← ask (.save p.term m) with
      | .ok _ => driveShards keys m
      | .error _ => return none

/-- What the migration's error says of a shard. -/
def DDLMigration.shardError (m : DDLMigration Q) (key : Key) : String :=
  "shard " ++ key.text ++ ": " ++ (m.perShard key).error

/-- The state the entries give the migration. One that was skipped everywhere has failed. -/
def tally (m : DDLMigration Q) : DDLMigration Q :=
  match m.keys.find? fun key => (m.perShard key).state = .failed with
  | some key => { m with state := .failed, error := m.shardError key }
  | none =>
    match m.keys with
    | [] => { m with state := .complete, error := "" }
    | first :: _ =>
      if m.keys.any fun key => (m.perShard key).state = .applied then { m with state := .complete, error := "" }
      else
        { m with
          state := .failed
          error := m.shardError first
          perShard := fun key => { m.perShard key with state := .failed } }

/-- Writes the finished row, with what the statement implies elsewhere in the catalog when it is complete. -/
def finish (m : DDLMigration Q) : Prog Q Unit := do
  if m.state = .complete then
    let _ ← ask (.mirrorAndSave p.term m)
  else
    let _ ← ask (.save p.term m)

def roleStatement (kind : String) : Bool :=
  kind ∈ ["CREATE ROLE", "ALTER ROLE", "DROP ROLE", "GRANT ROLE", "REVOKE ROLE"]

def fail (m : DDLMigration Q) (error : String) : Prog Q Unit := do
  let _ ← ask (.save p.term { m with state := .failed, error := error })

def straddled (m : DDLMigration Q) (serving : String) : Bool :=
  m.state = .running && m.shardSet ≠ "" && m.shardSet ≠ serving

/-- The shards a migration runs on, and for a role the catalog. -/
def targeted (m : DDLMigration Q) (ids : List Int) : List Key :=
  ids.map Key.shard ++ if p.catalog && roleStatement m.kind then [Key.catalog] else []

/-- The placements the statement was planned under still hold; a migration whose placements have moved
fails. -/
def placed (m : DDLMigration Q) : Prog Q Bool := do
  if m.placements = [] then return true
  match ← ask .placementDrift with
  | .error _ => return false
  | .ok none => return true
  | .ok (some moved) =>
    fail p m ("the placement this statement was planned under has changed while it waited in the queue: " ++
      moved ++ "; re-issue the statement so it is planned against the placement in force")
    return false

/-- A home-scope migration runs on the home shard its database has now. -/
def rehomed (m : DDLMigration Q) : Prog Q (Option (DDLMigration Q)) := do
  if m.scope ≠ .home then return some m
  match ← ask .queued with
  | .error _ => return none
  | .ok false => return some m
  | .ok true =>
    match ← ask .databaseHomeShard with
    | .error _ => return none
    | .ok (some home) => return some { m with homeShard := home }
    | .ok none =>
      fail p m "the database is not registered: it was dropped after the migration was queued"
      return none

def targets (m : DDLMigration Q) : Prog Q (Option (List Int)) := do
  if m.scope = .home then return some [m.homeShard]
  match ← ask .shards with
  | .error _ => return none
  | .ok ids => return if ids = [] then none else some ids

/-- The migration as it starts, on the shards that were found. -/
def DDLMigration.fresh (m : DDLMigration Q) (serving : String) (keys : List Key) : DDLMigration Q :=
  { m with state := .running, shardSet := serving, keys := keys, perShard := fun _ => { state := .pending } }

/-- Starts a queued migration. -/
def start (m : DDLMigration Q) (serving : String) : Prog Q (Option (DDLMigration Q)) := do
  if !(← placed p m) then return none
  match ← rehomed p m with
  | none => return none
  | some m =>
    match ← targets m with
    | none => return none
    | some ids =>
      let m := m.fresh serving (targeted p m ids)
      match ← ask (.save p.term m) with
      | .ok _ => return some m
      | .error _ => return none

end PgShard.Migration
