import PgShard.Sql.Truth

/-!
# The operation queue

The rows that migrations, reshards, upgrades and table placements have in the catalog, the view that shows the
unfinished ones, the rule for two that may not overlap, and what an operation waits for.
-/

namespace PgShard.Queue

open Sql

abbrev Uuid := Nat

inductive MigrationState
  | queued | running | complete | failed
  deriving DecidableEq

/-- A row of `pgshard.migrations`. -/
structure Migration where
  arrival : Nat
  database : String
  metaDatabase : Option String
  kind : String
  state : MigrationState

inductive WorkflowKind
  | reshard | upgrade | tablePlacement
  deriving DecidableEq

inductive WorkflowState
  | pending | provisioning | running | paused | completed | failed | cancelled
  deriving DecidableEq

inductive Stage
  | provisioning | readyForCopy | copying | catchUpDone | awaitingSwitch | switching | switched | rollingBack
  | rolledBack | completing | completed | preparing | shadow | catchUp | buffering | swapping | retiring
  | cancelling | cancelled | failed
  deriving DecidableEq

/-- A row of `pgshard.workflows`: of its spec, the database of a placement and the source set of a reshard. -/
structure Workflow where
  arrival : Nat
  kind : WorkflowKind
  state : WorkflowState
  stage : Option Stage := none
  database : Option String := none
  sourceSet : Option String := none
  startError : Option String := none
  pausedFrom : Option WorkflowState := none

inductive Kind
  | ddl | reshard | upgrade | tablePlacement
  deriving DecidableEq

/-- A row of `pgshard.operations`. -/
structure Operation where
  kind : Kind
  id : Uuid
  arrival : Nat
  databases : Option (List String)
  clusterScoped : Truth
  started : Truth
  holdsQueue : Truth
  ddlHoldEnds : Truth
  deriving DecidableEq

def clusterScopedMigration (kind : String) : Bool :=
  kind ∈ ["CREATE ROLE", "ALTER ROLE", "DROP ROLE", "GRANT ROLE", "REVOKE ROLE", "CREATE DATABASE", "DROP DATABASE"]

def Migration.unfinished (m : Migration) : Bool := m.state = .queued ∨ m.state = .running

def Migration.operation (id : Uuid) (m : Migration) : Option Operation :=
  if m.unfinished then
    some
      { kind := .ddl, id, arrival := m.arrival
        databases := some (m.database :: m.metaDatabase.toList)
        clusterScoped := some (clusterScopedMigration m.kind)
        started := some (m.state = .running)
        holdsQueue := some true
        ddlHoldEnds := some false }
  else none

namespace Workflow

variable (w : Workflow)

/-- The state is one with work left. -/
def active : Bool := w.state ∈ [.pending, .provisioning, .running, .paused]

/-- `status->>'stage' = 'cancelling'`, unknown for a row that has no stage. -/
def cancelling : Truth := equal w.stage (some .cancelling)

def unfinished : Truth := .or (some w.active) w.cancelling

/-- `coalesce(status->>'stage', '')` is neither empty nor one of `stages`. -/
def past (stages : List Stage) : Bool :=
  match w.stage with
  | none => false
  | some s => s ∉ stages

/-- `coalesce(status->>'start_error', '') <> ''` -/
def failsToStart : Bool := w.startError.getD "" ≠ ""

def copyStarted : Truth := some (w.past [.provisioning, .readyForCopy])

def placementStarted : Truth :=
  .and (some (w.past [.preparing])) (.or (some (w.state ∈ [.running, .paused])) w.cancelling)

/-- The row of a reshard or an upgrade. -/
def copyOperation (kind : Kind) (id : Uuid) : Operation :=
  { kind, id, arrival := w.arrival, databases := none
    clusterScoped := some false
    started := w.copyStarted
    holdsQueue := .or w.copyStarted
      (some !(w.state = .paused ∨ (w.state = .pending ∧ w.sourceSet.isNone) ∨ w.failsToStart))
    ddlHoldEnds := some false }

def placementOperation (id : Uuid) : Operation :=
  { kind := .tablePlacement, id, arrival := w.arrival, databases := some w.database.toList
    clusterScoped := some false
    started := w.placementStarted
    holdsQueue := .or w.placementStarted (some !(w.state = .paused ∨ w.failsToStart))
    ddlHoldEnds := some (w.stage = some .retiring) }

def operation (id : Uuid) : Option Operation :=
  if w.unfinished.holds then
    match w.kind with
    | .reshard => some (w.copyOperation .reshard id)
    | .upgrade => some (w.copyOperation .upgrade id)
    | .tablePlacement => some (w.placementOperation id)
  else none

end Workflow

/-- Whether two operations may not overlap. -/
def operationsConflict (a b : Operation) : Truth :=
  match a.kind, b.kind with
  | .ddl, .ddl => .or (.or a.clusterScoped b.clusterScoped) ((overlaps a.databases b.databases).coalesce false)
  | .ddl, .tablePlacement =>
    .and (.or a.clusterScoped ((overlaps a.databases b.databases).coalesce false)) (.not (b.ddlHoldEnds.coalesce false))
  | .tablePlacement, .ddl =>
    .and (.or b.clusterScoped ((overlaps a.databases b.databases).coalesce false)) (.not (a.ddlHoldEnds.coalesce false))
  | .tablePlacement, .tablePlacement => some false
  | _, _ => some true

/-- Whether `a` waits for `b`: it has not started, they conflict, and `b` has, or came first and holds its place. -/
def waitsFor (a b : Operation) : Truth :=
  .and (.and (.not a.started) (operationsConflict a b))
    (.or b.started (.and (some (b.arrival < a.arrival)) b.holdsQueue))

structure Catalog where
  migrations : AList (fun _ : Uuid => Migration) := ∅
  workflows : AList (fun _ : Uuid => Workflow) := ∅
  /-- The next value of the sequence arrivals are drawn from. -/
  arrival : Nat := 0

namespace Catalog

def operations (c : Catalog) : List Operation :=
  c.migrations.entries.filterMap (fun e => e.2.operation e.1) ++
    c.workflows.entries.filterMap (fun e => e.2.operation e.1)

/-- What the operation waits for. -/
def operationBlockers (c : Catalog) (kind : Kind) (id : Uuid) : List Operation :=
  c.operations.flatMap fun a =>
    if a.kind = kind ∧ a.id = id then
      c.operations.filter fun b => ! (b.kind = a.kind ∧ b.id = a.id) && (waitsFor a b).holds
    else []

end Catalog

end PgShard.Queue
