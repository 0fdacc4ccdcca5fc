import PgShard.Migration.Applier

/-!
# An online rewrite

A rewrite adds a working column, keeps it in step with a trigger, fills it in, and swaps it in for the old
column. It goes phase by phase across the shards, so that no shard cuts over before all have filled their
column in. An entry's `step` is the phase its shard has reached.
-/

namespace PgShard.Migration

open Interleave

variable {Q : Type} (p : Pass)

def rewriteCutover : Nat := 3

def rewriteDone : Nat := 5

def setColumns (m : DDLMigration Q) (columns : List String) : DDLMigration Q :=
  { m with rewrite := { m.rewrite with columns := columns } }

def settle (m : DDLMigration Q) : DDLMigration Q := { m with rewrite := { m.rewrite with settled := true } }

/-- Waits until every router has reloaded the column list, and records that it did. -/
def settleColumns (m : DDLMigration Q) : Prog Q (DDLMigration Q × Option Err) := do
  match ← ask .sleep with
  | .error _ => return (m, some { text := "context canceled" })
  | .ok _ =>
    match ← ask (.saveMeta p.term (settle m)) with
    | .error e => return (settle m, some e.notSaved)
    | .ok _ => return (settle m, none)

/-- Publishes the table's visible columns before a hidden one is there. -/
def recordRewriteColumns (m : DDLMigration Q) : Prog Q (DDLMigration Q × Option Err) := do
  if m.rewrite.settled then return (m, none)
  if m.rewrite.columns ≠ [] then settleColumns p m
  else
    match ← ask (.rewriteColumns m) with
    | .error e => return (m, some e)
    | .ok [] => return (m, some { text := "table has no columns" })
    | .ok columns =>
      match ← ask (.saveMeta p.term (setColumns m columns)) with
      | .error e => return (setColumns m columns, some e.notSaved)
      | .ok _ => settleColumns p (setColumns m columns)

/-- Swaps the working column in for the old one. A working column that is not there means that an earlier
attempt has. -/
def cutover (m : DDLMigration Q) (key : Key) : Prog Q (Except Err ShardState) := do
  match ← ask (.columnExists m key) with
  | .error e => return .error e
  | .ok false => return .ok .applied
  | .ok true =>
    match ← ask (.swapColumns m key) with
    | .error e => return .error e
    | .ok _ => return .ok .applied

def rewritePhase (key : Key) (phase : Nat) (m : DDLMigration Q) : Prog Q (Except Err ShardState) := do
  if phase = rewriteCutover then cutover m key
  else
    match ← ask (.rewritePhase m key phase) with
    | .error e => return .error e
    | .ok _ => return .ok .applied

inductive RewriteSchemaState
  | unchanged
  | cutOver
  | unknown
  deriving DecidableEq

/-- What is known of a shard's schema. Only a shard that is at the cutover has to be asked. -/
def cutOverShard (m : DDLMigration Q) (key : Key) : Prog Q RewriteSchemaState := do
  if rewriteCutover < (m.perShard key).step then return .cutOver
  if (m.perShard key).step < rewriteCutover then return .unchanged
  match ← ask (.cutoverCommitted m key) with
  | .error _ => return .unknown
  | .ok true => return .cutOver
  | .ok false => return .unchanged

def cutOverShards (m : DDLMigration Q) : List Key → Prog Q (List (Key × RewriteSchemaState))
  | [] => return []
  | key :: keys => do
    let state ← cutOverShard m key
    let states ← cutOverShards m keys
    return (key, state) :: states

/-- The entry of a shard of a rewrite that failed. -/
def ShardMigration.given (s : ShardMigration) : RewriteSchemaState → ShardMigration
  | .cutOver => { s with state := .failed, error := "left as it is: this shard cut over" }
  | .unknown => { s with state := .failed, error := "unreachable, may have cut over, left as it is: " ++ s.error }
  | .unchanged =>
    { s with state := .failed, error := if s.error = "" then "reverted: another shard failed" else s.error }

/-- Every shard that has not cut over is reverted. -/
def revertShards : List (Key × RewriteSchemaState) → DDLMigration Q → Prog Q (DDLMigration Q)
  | [], m => return m
  | (key, state) :: es, m => do
    let m := m.setEntry key ((m.perShard key).given state)
    if state = .unchanged then
      let _ ← ask (.revertRewrite m key)
      revertShards es m
    else revertShards es m

def failedWith (m : DDLMigration Q) (msg : String) (states : List (Key × RewriteSchemaState)) : DDLMigration Q :=
  { m with
    state := .failed
    error := if states.all (·.2 = .unchanged) then msg
      else msg ++ "; some shards may already be cut over (schema is DEGRADED until resolved)" }

def failRewrite (m : DDLMigration Q) (msg : String) : Prog Q Unit := do
  let states ← cutOverShards { m with state := .failed, error := msg } m.keys
  let m ← revertShards states (failedWith m msg states)
  let _ ← ask (.save p.term m)

/-- The entry a shard has after a phase. -/
def ShardMigration.reached (s : ShardMigration) (phase : Nat) : ShardMigration :=
  if s.state = .failed then s
  else if s.state = .applied && phase < rewriteDone - 1 then { s with state := .running, step := phase + 1 }
  else { s with step := phase + 1 }

def phaseShards (phase : Nat) : List Key → DDLMigration Q → Prog Q (Option (DDLMigration Q))
  | [], m => return some m
  | key :: keys, m =>
    let s := m.perShard key
    if s.state = .failed || phase < s.step then phaseShards phase keys m
    else do
      if !(← ask (.leader p.term)) then return none
      let (m, s) ← retrying p key (fun (_ : Unit) m => do return (← rewritePhase key phase m, ())) m s ()
      if ← ask .ctxErr then return none
      let s := s.reached phase
      let m := m.setEntry key s
      match ← ask (.save p.term m) with
      | .error _ => return none
      | .ok _ =>
        if s.state = .failed then
          failRewrite p m (m.shardError key)
          return none
        else phaseShards phase keys m

def phases : List Nat → DDLMigration Q → Prog Q (Option (DDLMigration Q))
  | [], m => return some m
  | phase :: rest, m => do
    match ← phaseShards p phase m.keys m with
    | none => return none
    | some m => phases rest m

def driveRewrite (m : DDLMigration Q) : Prog Q Unit := do
  match ← recordRewriteColumns p m with
  | (m, some e) => failRewrite p m ("recording the column list: " ++ e.text)
  | (m, none) =>
    match ← phases p (List.range rewriteDone) m with
    | none => return ()
    | some m =>
      let _ ← ask (.save p.term { m with state := .complete, error := "" })

/-- With nothing pending, what a rewrite left on a shard is garbage. -/
def sweepShards : List Int → Prog Q Unit
  | [] => return ()
  | id :: ids => do
    let _ ← ask (.sweepShard (.shard id))
    sweepShards ids

def sweepRewriteArtifacts : Prog Q Unit := do
  match ← ask .shards with
  | .error _ => return ()
  | .ok ids => sweepShards ids

end PgShard.Migration
