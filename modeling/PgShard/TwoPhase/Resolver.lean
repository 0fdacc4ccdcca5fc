import PgShard.TwoPhase.Coordinator

/-!
# The resolver's side

One pass of `Resolver.Resolve`: read the decisions, list the shards, scan each
shard's prepared transactions, finish what the decisions name, then sweep what
no decision pass handled.
-/

namespace PgShard.TwoPhase

open Interleave

structure Holder where
  shard : ShardRef
  database : String
  deriving DecidableEq, Repr

/-- Where each gid is held, in topology order: the entries of a map from gids
to lists of holders. -/
abbrev Holders := List (Gid × Holder)

def Holders.at (holders : Holders) (gid : Gid) : List Holder := (holders.filter (·.1 = gid)).map (·.2)

def Holders.set (holders : Holders) (gid : Gid) (hs : List Holder) : Holders :=
  holders.filter (·.1 ≠ gid) ++ hs.map (gid, ·)

structure Outcome where
  committed : Nat
  rolledBack : Nat
  unresolved : Nat
  deriving DecidableEq, Repr

namespace Outcome

def count (out : Outcome) (commit : Bool) : Outcome :=
  if commit then { out with committed := out.committed + 1 }
  else { out with rolledBack := out.rolledBack + 1 }

def leave (out : Outcome) (n : Nat) : Outcome := { out with unresolved := out.unresolved + n }

end Outcome

/-- Durations are in nanoseconds. `sweepDue` is what the clock says of it. -/
structure Resolver where
  preparingTimeout : Int
  heartbeatInterval : Int
  sweepDue : Bool

def second : Int := 1000000000
def decisionHeartbeatInterval : Int := 2 * second
def minPreparingBeats : Int := 4
def defaultPreparingTimeout : Int := 10 * second

namespace Resolver

variable (r : Resolver)

/-- The configured timeout, raised to what the coordinator heartbeat can survive. -/
def timeout : Int :=
  let beat := if r.heartbeatInterval ≤ 0 then decisionHeartbeatInterval else r.heartbeatInterval
  let want := if r.preparingTimeout ≤ 0 then defaultPreparingTimeout else r.preparingTimeout
  let floor := minPreparingBeats * beat
  if want ≥ floor then want else floor

/-- The holders the scans found. -/
def collect (scans : List (ShardRef × Option Reply)) : Holders :=
  scans.flatMap fun (sh, o) =>
    match o with
    | some (.held l) => l.map fun (gid, database) => (gid, ⟨sh, database⟩)
    | _ => []

def scanFailed : Option Reply → Bool
  | some (.held _) => false
  | _ => true

/-- Finish `gid` where `hs` say it is held; what is left when one of them fails. -/
def finishHolders (gid : Gid) (commit : Bool) : List Holder → Program (List Holder)
  | [] => return []
  | h :: hs => do
    match errorOf (← Prog.call (.finish h.shard h.database commit gid)) with
    | some f => if isGonePreparedXact f then finishHolders gid commit hs else return h :: hs
    | none => finishHolders gid commit hs

/-- The part of `resolveDecision` after the state is settled. The result is the
holders left, the counts and whether the decision was resolved. -/
def applyDecision (gid : Gid) (state : DecisionState) (holders : Holders) (complete : Bool)
    (out : Outcome) : Program (Holders × Outcome × Bool) := do
  match ← finishHolders gid (state = .commit) (holders.at gid) with
  | h :: hs => return (holders.set gid (h :: hs), out, false)
  | [] =>
  let holders := holders.set gid []
  if !complete then return (holders, out, false)
  match errorOf (← Prog.call (.deleteState gid state)) with
  | some _ => return (holders, out, false)
  | none => return (holders, out.count (state = .commit), true)

def resolveDecision (d : Decision) (holders : Holders) (complete : Bool) (out : Outcome) :
    Program (Holders × Outcome × Bool) :=
  if d.state ≠ .preparing then applyDecision d.gid d.state holders complete out
  else if d.age < r.timeout then return (holders, out, true)
  else do
    match ← Prog.call (.abortStale d.gid r.timeout) with
    | some (.rows 0) =>
      match ← Prog.call (.selectState d.gid) with
      | some (.state none) => return (holders, out, true)
      | some (.state (some .preparing)) => return (holders, out, true)
      -- decided after the scan, so the scan may have missed participants
      | some (.state (some st)) => applyDecision d.gid st holders false out
      | _ => return (holders, out, false)
    | some (.rows _) => applyDecision d.gid .abort holders complete out
    | _ => return (holders, out, false)

def resolveDecisions (complete : Bool) : List Decision → Holders → Outcome → Program (Holders × Outcome)
  | [], holders, out => return (holders, out)
  | d :: ds, holders, out => do
    let (holders, out, resolved) ← r.resolveDecision d holders complete out
    resolveDecisions complete ds holders (if resolved then out else out.leave 1)

/-- Finish `gid` on each of `hs`; the counts, and whether one of them failed. -/
def sweepHolders (gid : Gid) (commit : Bool) : List Holder → Outcome → Bool → Program (Outcome × Bool)
  | [], out, failed => return (out, failed)
  | h :: hs, out, failed => do
    match errorOf (← Prog.call (.finish h.shard h.database commit gid)) with
    | some f => sweepHolders gid commit hs out (failed || !isGonePreparedXact f)
    | none => sweepHolders gid commit hs (out.count commit) failed

def sweepGids (holders : Holders) : List Gid → Outcome → Bool → Program (Outcome × Bool)
  | [], out, failed => return (out, failed)
  | gid :: gids, out, failed => do
    match ← Prog.call (.selectState gid) with
    | some (.state (some .preparing)) => sweepGids holders gids out failed
    | some (.state st) =>
      -- no row: no coordinator claims the gid
      let (out, failed) ← sweepHolders gid (st = some .commit) (holders.at gid) out failed
      sweepGids holders gids out failed
    | _ => sweepGids holders gids out true

def sweepOrphans (holders : Holders) (out : Outcome) : Program (Outcome × Bool) :=
  sweepGids holders ((holders.map (·.1)).dedup.mergeSort fun a b => decide (a ≤ b)) out false

/-- One pass; `none` when the decisions or the shards could not be read. -/
def resolve (shardSet : String) : Program (Option Outcome) := do
  match ← Prog.call .readDecisions with
  | some (.decisions ds) =>
    if ds = [] ∧ !r.sweepDue then return some ⟨0, 0, 0⟩
    match ← Prog.call (.listShards shardSet) with
    | some (.shards shards) =>
      let scans ← Prog.each (shards.map .listPrepared)
      let failures := scans.countP scanFailed
      let complete := shardSet = "" ∧ failures = 0
      let (holders, out) ← r.resolveDecisions complete ds (collect (shards.zip scans)) ⟨0, 0, 0⟩
      let (out, failed) ← sweepOrphans holders (out.leave failures)
      return some (if failed then out.leave 1 else out)
    | _ => return none
  | _ => return none

end Resolver

/-- The databases of one transaction, with any number of resolver passes. -/
def machine (g : Gid) (db : String) : Machine World Call Reply (Option Outcome) where
  exec := Exec g db
  env := Env
  pass p := ∃ (r : Resolver) (shardSet : String), p = r.resolve shardSet

end PgShard.TwoPhase
