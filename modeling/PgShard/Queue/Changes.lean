import PgShard.Queue.Operations

/-!
# What changes the rows

The statements of the router, the controller's loops and its API that insert and update migrations and workflows. A
start takes the move gate, so it is one step: its look at the queue and its update. A pass of a loop owns the workflow it
drives and has loaded its stage; its updates ask for the state the pass found.
-/

namespace PgShard.Queue

def WorkflowKind.copies : WorkflowKind → Bool
  | reshard | upgrade => true
  | tablePlacement => false

/-- Where a placement's pass goes from a stage. -/
def Stage.placementNext : Stage → List Stage
  | shadow => [.copying]
  | copying => [.catchUp]
  | catchUp => [.buffering]
  -- a pause of writes that took too long is released
  | buffering => [.swapping, .catchUp]
  | swapping => [.retiring]
  | _ => []

/-- Where the copier goes from a stage. -/
def Stage.copyNext : Stage → List Stage
  | copying => [.catchUpDone]
  | catchUpDone => [.awaitingSwitch]
  | awaitingSwitch => [.switching]
  | switching => [.switched, .awaitingSwitch]
  | switched => [.rollingBack, .completing]
  | rollingBack => [.switched]
  | _ => []

def Stage.next (s : Stage) (kind : WorkflowKind) : List Stage :=
  match kind with
  | .reshard | .upgrade => s.copyNext
  | .tablePlacement => s.placementNext

namespace Workflow

/-- The stage holds a fence or a pause of writes until its step finishes. -/
def holding (w : Workflow) : Bool :=
  if w.kind.copies then w.stage ∈ [some .switching, some .rollingBack, some .completing]
  else w.stage ∈ [some .buffering, some .swapping]

/-- `PauseWorkflow` -/
def pause (w : Workflow) : Option Workflow :=
  if w.state ∈ [.pending, .running] ∧ ¬w.holding then some { w with state := .paused, pausedFrom := some w.state }
  else none

/-- `ResumeWorkflow` -/
def resume (w : Workflow) : Option Workflow :=
  if w.state = .paused then some { w with state := w.pausedFrom.getD .pending, pausedFrom := none } else none

/-- `CancelWorkflow`, for one that has not started. -/
def cancel (w : Workflow) : Option Workflow :=
  if w.state = .pending ∨ (w.state = .paused ∧ w.pausedFrom.getD .pending = .pending) then
    some { w with state := .cancelled, pausedFrom := none }
  else none

/-- The desired placement is the effective one again. -/
def cancelPlacement (w : Workflow) : Option Workflow :=
  if w.kind = .tablePlacement ∧ w.active ∧ w.stage ∉ [some .swapping, some .retiring] then
    some { w with state := .cancelled, stage := some .cancelling }
  else none

/-- The target set of a reshard, or its source, was removed. -/
def removeSet (sourceGone : Bool) (w : Workflow) : Option Workflow :=
  if w.kind.copies then
    match w.state with
    | .provisioning | .pending => some { w with state := .cancelled, stage := some .cancelled }
    | .running | .paused =>
      some { w with state := .cancelled, stage := some (if sourceGone then .cancelled else .cancelling) }
    | _ => none
  else none

/-- Every target shard has a primary. -/
def targetsReady (w : Workflow) : Option Workflow :=
  if w.kind.copies ∧ w.state = .provisioning then some { w with state := .running, stage := some .readyForCopy }
  else none

/-- A pass at the stage before the start. -/
def waiting (w : Workflow) : Bool :=
  if w.kind.copies then w.state = .running ∧ w.stage = some .readyForCopy
  else w.state ∈ [.pending, .running] ∧ ¬w.past [.preparing]

/-- What a pass that does not start saves: why, if the wait is not for its turn. -/
def saveWaiting (startError : String) (w : Workflow) : Option Workflow :=
  if w.waiting then
    some { w with stage := if w.kind.copies then w.stage else some .preparing, startError := some startError }
  else none

def start (w : Workflow) : Option Workflow :=
  if w.waiting then
    some { w with state := .running, stage := some (if w.kind.copies then .copying else .shadow), startError := some "" }
  else none

def advance (next : Stage) (w : Workflow) : Option Workflow :=
  match w.stage with
  | some s =>
    if w.state = .running ∧ next ∈ s.next w.kind then
      some { w with stage := some next, startError := some "" }
    else none
  | none => none

/-- A workflow ends: completed, failed, rolled back, or done with its cleanup. -/
def finish (state : WorkflowState) (stage : Stage) (w : Workflow) : Option Workflow :=
  if w.unfinished.holds ∧ state ∈ [.completed, .failed, .cancelled] ∧
      stage ∈ [.completed, .failed, .cancelled, .rolledBack] then
    some { w with state, stage := some stage }
  else none

end Workflow

def WorkflowKind.operation : WorkflowKind → Kind
  | reshard => .reshard
  | upgrade => .upgrade
  | tablePlacement => .tablePlacement

/-- A step. `held` stands for what else a start looks at: the serving set, the shape of the table, its lock. -/
inductive Event
  | declareSet
  | enqueue (id : Uuid) (database : String) (metaDatabase : Option String) (kind : String)
  | createPlacement (id : Uuid) (database : String)
  | recordRangeEdit (id : Uuid)
  | createReshard (id : Uuid) (upgrade : Bool) (sourceSet : String)
  | saveMigration (id : Uuid) (state : MigrationState) (held : Bool)
  | start (id : Uuid) (held : Bool)
  | pause (id : Uuid)
  | resume (id : Uuid)
  | cancel (id : Uuid)
  | cancelPlacement (id : Uuid)
  | removeSet (id : Uuid) (sourceGone : Bool)
  | targetsReady (id : Uuid)
  | saveWaiting (id : Uuid) (startError : String)
  | advance (id : Uuid) (next : Stage)
  | finish (id : Uuid) (state : WorkflowState) (stage : Stage)

namespace Catalog

/-- A new row draws its arrival from the sequence. -/
def addWorkflow (c : Catalog) (id : Uuid) (w : Workflow) : Catalog :=
  if id ∈ c.workflows then c
  else { c with workflows := c.workflows.insert id { w with arrival := c.arrival }, arrival := c.arrival + 1 }

def enqueue (c : Catalog) (id : Uuid) (database : String) (metaDatabase : Option String) (kind : String) : Catalog :=
  if id ∈ c.migrations then c
  else
    { c with
      migrations := c.migrations.insert id { arrival := c.arrival, database, metaDatabase, kind, state := .queued }
      arrival := c.arrival + 1 }

/-- The row of a workflow changes, where the statement's conditions hold. -/
def update (c : Catalog) (id : Uuid) (f : Workflow → Option Workflow) : Catalog :=
  match (c.workflows.lookup id).bind f with
  | some w => { c with workflows := c.workflows.insert id w }
  | none => c

/-- `SaveQueuedMigrationProgress`, of a migration that was loaded as queued or running. -/
def saveMigration (c : Catalog) (id : Uuid) (state : MigrationState) (held : Bool) : Catalog :=
  match c.migrations.lookup id with
  | some m =>
    if m.unfinished ∧ ¬(m.state = .queued ∧ state = .running ∧ (c.operationBlockers .ddl id ≠ [] ∨ held)) then
      { c with migrations := c.migrations.insert id { m with state } }
    else c
  | none => c

/-- `startCopy`, and `start` of a placement. -/
def start (c : Catalog) (id : Uuid) (held : Bool) : Catalog :=
  c.update id fun w => if c.operationBlockers w.kind.operation id = [] ∧ ¬held then w.start else none

def step (c : Catalog) : Event → Catalog
  | .declareSet => { c with arrival := c.arrival + 1 }
  | .enqueue id database metaDatabase kind => c.enqueue id database metaDatabase kind
  | .createPlacement id database =>
    c.addWorkflow id { arrival := 0, kind := .tablePlacement, state := .pending, database := some database }
  | .recordRangeEdit id => c.addWorkflow id { arrival := 0, kind := .reshard, state := .pending }
  | .createReshard id upgrade sourceSet =>
    c.addWorkflow id
      { arrival := 0, kind := if upgrade then .upgrade else .reshard, state := .provisioning, stage := some .provisioning
        sourceSet := some sourceSet }
  | .saveMigration id state held => c.saveMigration id state held
  | .start id held => c.start id held
  | .pause id => c.update id Workflow.pause
  | .resume id => c.update id Workflow.resume
  | .cancel id => c.update id Workflow.cancel
  | .cancelPlacement id => c.update id Workflow.cancelPlacement
  | .removeSet id sourceGone => c.update id (Workflow.removeSet sourceGone)
  | .targetsReady id => c.update id Workflow.targetsReady
  | .saveWaiting id startError => c.update id (Workflow.saveWaiting startError)
  | .advance id next => c.update id (Workflow.advance next)
  | .finish id state stage => c.update id (Workflow.finish state stage)

def run (c : Catalog) (events : List Event) : Catalog := events.foldl step c

end Catalog

end PgShard.Queue
