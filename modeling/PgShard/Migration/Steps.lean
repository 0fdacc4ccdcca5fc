import PgShard.Interleave.Alone
import PgShard.Migration.Table

/-!
# An ALTER TABLE applied in steps

A constraint is added NOT VALID and then validated, a key is built as an index and then attached, a partition
is detached concurrently and then finalised. Every step has a check that it already happened; it is made
before the step is run for the first time as well as when an interrupted run is taken up again.
-/

namespace PgShard.Migration

open Interleave

variable {D : Type}

structure MigrationStep (D : Type) where
  sql : Sql D
  skip : MigrationCheck := {}
  onFail : Option (Sql D) := none
  concurrent : Bool := false
  index : String := ""

inductive ConType
  | check
  | foreign
  | primary
  | unique
  | other
  deriving DecidableEq

/-- A constraint as ADD CONSTRAINT spells it. `refs` are the columns its expression reads, or those of the
foreign key. -/
structure ConstraintDef (D : Type) where
  contype : ConType
  conname : String := ""
  body : D
  refs : List String := []
  keys : List String := []
  including : List String := []
  nullsNotDistinct : Bool := false
  deferrable : Bool := false
  initdeferred : Bool := false
  skipValidation : Bool := false
  indexname : String := ""
  withoutOverlaps : Bool := false
  options : List String := []
  indexspace : String := ""

inductive AlterTableCmd (D : Type)
  | addConstraint (cs : ConstraintDef D)
  | setNotNull (col : String)
  | detachPartition (part : RangeVar) (concurrent : Bool)
  | other

def dropRunes (keep : Nat) : List Char → List Char
  | [] => []
  | c :: cs => if ((c :: cs).map Char.utf8Size).sum ≤ keep then c :: cs else dropRunes keep cs

/-- The longest beginning of at most so many bytes. -/
def keepBytes (keep : Nat) (s : String) : String := String.ofList (dropRunes keep s.toList.reverse).reverse

/-- `hash` is the beginning of the hash of the full name, in hexadecimal. -/
def autoName (hash : String → String) (table : String) (cols : List String) (suffix : String) : String :=
  let base := if cols = [] then table else table ++ "_" ++ "_".intercalate cols
  let full := base ++ "_" ++ suffix
  if full.utf8ByteSize ≤ 63 then full
  else
    let h := hash full
    keepBytes (63 - suffix.utf8ByteSize - h.utf8ByteSize - 2) base ++ "_" ++ h ++ "_" ++ suffix

section

variable (hash : String → String) (rv : RangeVar)

def check (name : String) (kind : CheckKind) : MigrationCheck :=
  { kind, schema := rv.schema, table := rv.relname, name }

/-- The two steps of a constraint that is added NOT VALID. `target` is what their checks name. -/
def addAndValidate (name : String) (kind : ConKind D) (target : String) (added valid : CheckKind) :
    List (MigrationStep D) :=
  [{ sql := .addNotValid name kind, skip := check rv target added },
    { sql := .validate name, skip := check rv target valid, onFail := some (.dropConstraint name) }]

def ConstraintDef.validatedName (cs : ConstraintDef D) (suffix : String) : String :=
  if cs.conname = "" then autoName hash rv.relname cs.refs suffix else cs.conname

def validatedSteps (cs : ConstraintDef D) (suffix : String) : List (MigrationStep D) :=
  let name := cs.validatedName hash rv suffix
  addAndValidate rv name (.check cs.body) name .constraint .constraintValid

def notNullName (col : String) : String := autoName hash rv.relname [col] "not_null"

def notNullSteps (col : String) : List (MigrationStep D) :=
  addAndValidate rv (notNullName hash rv col) (.notNull col) col .notnull .notnullValid

def ConstraintDef.isPrimary (cs : ConstraintDef D) : Bool := cs.contype = .primary

def ConstraintDef.keyName (cs : ConstraintDef D) : String :=
  if cs.conname = "" then
    if cs.isPrimary then autoName hash rv.relname [] "pkey" else autoName hash rv.relname cs.keys "key"
  else cs.conname

def ConstraintDef.index (cs : ConstraintDef D) : IndexDef :=
  { cols := cs.keys, including := cs.including, nullsNotDistinct := cs.nullsNotDistinct }

def uniqueSteps (cs : ConstraintDef D) : List (MigrationStep D) :=
  let name := cs.keyName hash rv
  (if cs.isPrimary then cs.keys.flatMap (notNullSteps hash rv) else []) ++
    [{ sql := .createUniqueIndex name cs.index, concurrent := true, index := name, skip := check rv name .indexValid },
      { sql := .addUsingIndex name cs.isPrimary cs.deferrable (cs.deferrable && cs.initdeferred)
        skip := check rv name .constraint }]

def detachSteps (part : RangeVar) : List (MigrationStep D) :=
  [{ sql := .detachConcurrently part, concurrent := true
     skip := { check rv part.relname .detachPending with nameSchema := part.schema } },
    { sql := .detachFinalize part, skip := { check rv part.relname .detached with nameSchema := part.schema } }]

variable (checkColocated : ConstraintDef D → Option String)

def constraintSteps (cs : ConstraintDef D) : Except String (List (MigrationStep D)) :=
  match cs.contype with
  | .check => .ok (if cs.skipValidation then [] else validatedSteps hash rv cs "check")
  | .foreign =>
    match checkColocated cs with
    | some refusal => .error refusal
    | none => .ok (if cs.skipValidation then [] else validatedSteps hash rv cs "fkey")
  | .primary | .unique =>
    .ok (if cs.indexname ≠ "" || cs.keys = [] || cs.withoutOverlaps || cs.options ≠ [] || cs.indexspace ≠ "" then []
      else uniqueSteps hash rv cs)
  | .other => .ok []

def multistepCmd : AlterTableCmd D → Bool
  | .setNotNull _ => true
  | .detachPartition _ concurrent => !concurrent
  | .addConstraint cs =>
    match cs.contype with
    | .check | .foreign => !cs.skipValidation
    | .primary | .unique => cs.indexname = "" && cs.keys ≠ []
    | .other => false
  | .other => false

def cmdSteps : AlterTableCmd D → Except String (List (MigrationStep D))
  | .addConstraint cs => constraintSteps hash rv checkColocated cs
  | .setNotNull col => .ok (notNullSteps hash rv col)
  | .detachPartition part concurrent => .ok (if concurrent then [] else detachSteps rv part)
  | .other => .ok []

/-- No steps: the statement runs as it is. -/
def alterSteps : List (AlterTableCmd D) → Except String (List (MigrationStep D))
  | [] => .ok []
  | [cmd] => cmdSteps hash rv checkColocated cmd
  | cmds =>
    if cmds.any multistepCmd then
      .error "ALTER TABLE with several actions of which one is applied online in steps is not available yet"
    else .ok []

end

abbrev StepProg (D A : Type) := Task (StepCall D) StepCall.Reply A

abbrev onShard (c : StepCall D) : StepProg D c.Reply := Task.ask c

def runSql (st : MigrationStep D) : StepProg D (Option Err) :=
  if st.concurrent then onShard (.exec st.sql) else onShard (.inTransaction st.sql)

/-- A build that failed is made once more, without the index it left. -/
def rebuild (st : MigrationStep D) : Option Err → StepProg D (Option Err)
  | none => pure none
  | some e =>
    if e.transient then pure (some e)
    else do
      if ← onShard .ctxErr then pure (some e)
      else
        match ← onShard (.dropInvalidIndex st.index) with
        | some _ => pure (some e)
        | none => runSql st

/-- No invalid index is left behind. -/
def sweepIndex (st : MigrationStep D) : Option Err → StepProg D (Option Err)
  | none => pure none
  | some e => do
    if ← onShard .ctxErr then pure (some e)
    else
      let _ ← onShard (.dropInvalidIndex st.index)
      pure (some e)

def conclude (st : MigrationStep D) : Option Err → StepProg D (Except Err ShardState)
  | none => pure (.ok .applied)
  | some e =>
    match st.onFail with
    | none => pure (.error e)
    | some sql =>
      if e.transient then pure (.error e)
      else do
        if ← onShard .ctxErr then pure (.error e)
        else
          let _ ← onShard (.exec sql)
          pure (.error e)

def buildIndex (st : MigrationStep D) : StepProg D (Except Err ShardState) := do
  match ← onShard (.dropInvalidIndex st.index) with
  | some e => pure (.error e)
  | none =>
    let err ← runSql st
    let err ← rebuild st err
    let err ← sweepIndex st err
    conclude st err

def runOrBuild (st : MigrationStep D) : StepProg D (Except Err ShardState) :=
  if st.index ≠ "" then buildIndex st
  else do
    let err ← runSql st
    conclude st err

def runStep (st : MigrationStep D) : StepProg D (Except Err ShardState) := do
  match ← onShard .prepare with
  | some e => pure (.error e)
  | none =>
    match ← onShard (.checkHolds st.skip) with
    | .error e => pure (.error e)
    | .ok true => pure (.ok .applied)
    | .ok false => runOrBuild st

/-- Where the migration is on a shard. -/
structure StepsRun (D : Type) where
  table : Table D
  left : List (MigrationStep D)
  failed : Bool := false

/-- Every step was run or skipped. -/
def StepsRun.applied (s : StepsRun D) : Bool := s.left.isEmpty

namespace StepsRun

/-- One attempt at the step the shard is on. It is cut off where the choices end; the step is tried again
after that and after a transient error. -/
def attempt (s : StepsRun D) (luck : List StepLuck) : StepsRun D :=
  match s.failed, s.left with
  | false, st :: rest =>
    match (runStep st).play Table.exec luck s.table with
    | (some (.ok _), t) => { table := t, left := rest }
    | (some (.error e), t) => { s with table := t, failed := !e.transient }
    | (none, t) => { s with table := t }
  | _, _ => s

def run (s : StepsRun D) (attempts : List (List StepLuck)) : StepsRun D := attempts.foldl attempt s

end StepsRun

end PgShard.Migration
