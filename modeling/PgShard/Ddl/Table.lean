import PgShard.Planner.Catalog

/-!
# Planning CREATE TABLE, CREATE INDEX and ALTER TABLE

A DDL statement is handed to the migration queue, or runs on the home shard when it is about a
local database or a local schema. Before that the planner refuses what would break the rules of
a sharded or a reference table.
-/

namespace PgShard.Ddl

open Planner

inductive ConstrType where
  | null
  | notNull
  | default
  | identity
  | generated
  | check
  | primary
  | unique
  | exclusion
  | foreign
  | other
  deriving DecidableEq, Repr

/-- One column of an index; the name of an expression is empty. -/
structure IndexElem where
  name : String := ""
  expr : Option Node := none
  collation : List String := []

/-- A constraint of a column or of a table. -/
structure Constraint where
  contype : ConstrType
  keys : List String := []
  /-- The index of ADD ... USING INDEX. -/
  indexname : String := ""
  /-- The elements of EXCLUDE, each with its operator. -/
  exclusions : List (IndexElem × String) := []
  rawExpr : Option Node := none
  generatedKind : String := ""
  pktable : RangeVar := { relname := "" }
  fkAttrs : List String := []
  pkAttrs : List String := []
  skipValidation : Bool := false
  withoutOverlaps : Bool := false
  options : List String := []
  indexspace : String := ""

structure ColumnDef where
  colname : String
  typeNames : List String := []
  constraints : List Constraint := []
  rawDefault : Option Node := none
  isNotNull : Bool := false
  collClause : Bool := false

inductive TableElt where
  | columnDef (col : ColumnDef)
  | constraint (cs : Constraint)
  /-- LIKE, and whether it says INCLUDING INDEXES. -/
  | like (relation : RangeVar) (indexes : Bool)

inductive Persistence where
  | permanent
  | unlogged
  | temporary
  deriving DecidableEq, Repr

structure CreateStmt where
  relation : RangeVar
  persistence : Persistence := .permanent
  tableElts : List TableElt := []
  /-- The parent of PARTITION OF. -/
  partitionOf : Option RangeVar := none
  ifNotExists : Bool := false

structure IndexStmt where
  relation : RangeVar
  idxname : String := ""
  unique : Bool := false
  concurrent : Bool := false
  indexParams : List IndexElem := []

/-- An action of ALTER TABLE with what it is about. -/
inductive AlterTableCmd where
  | addColumn (col : ColumnDef)
  | dropColumn (name : String)
  | alterColumnType (name : String) (col : ColumnDef) (cascade : Bool)
  | columnDefault (name : String) (value : Option Node)
  | setNotNull (name : String)
  | addConstraint (cs : Constraint)
  | addIndex (cs : Constraint)
  | detachPartition (part : RangeVar) (concurrent : Bool)
  | setUnLogged
  | setLogged
  | setTableSpace
  | other

inductive ObjectType where
  | table
  | index
  | view
  | sequence
  | type
  | other
  deriving DecidableEq, Repr

structure AlterTableStmt where
  relation : RangeVar
  objtype : ObjectType := .table
  cmds : List AlterTableCmd

inductive Statement where
  | createStmt (c : CreateStmt)
  | indexStmt (s : IndexStmt)
  | alterTableStmt (a : AlterTableStmt)

/-- The relation a statement is about. -/
def Statement.relation : Statement → RangeVar
  | .createStmt c => c.relation
  | .indexStmt s => s.relation
  | .alterTableStmt a => a.relation

/-- Which shards of the database a migration targets. -/
inductive Scope where
  | all
  | home
  | existing
  deriving DecidableEq, Repr

inductive Strategy where
  | direct
  | concurrent
  | multistep
  | rewrite
  deriving DecidableEq, Repr

structure Migration where
  kind : String
  scope : Scope
  strategy : Strategy := .direct
  deriving DecidableEq, Repr

/-- A statement of the home shard, marked when it is DDL, or a migration. -/
inductive Plan where
  | home (ddl : Bool)
  | migration (m : Migration)
  deriving DecidableEq, Repr

def notDurable (form : String) : Refusal :=
  notYet (form ++ " is not supported: an unlogged relation is emptied by crash recovery and its " ++
    "rows never reach a standby, so writes to it would be acknowledged and lost on a failover")
    "create the relation LOGGED; pgshard has no durability mode in which unlogged rows survive"

def rewriteClass (form : String) : Refusal :=
  notYet ("rewrite-class DDL is not available yet: " ++ form ++ " rewrites the table")
    ("column type changes and volatile-default ADD COLUMN run online; " ++
      "this form still needs a new table and a copy of the rows")

def keyConstraintError (r : Rel) (cols : List String) : Refusal :=
  notYet ("primary key or unique constraint (" ++ String.intercalate ", " cols ++
    ") on sharded table \"" ++ r.name ++ "\" must include the shard key \"" ++ r.shardKey ++ "\"")
    ("uniqueness is enforced per shard; include \"" ++ r.shardKey ++ "\" in the constraint")

def shardKeyChangeError (r : Rel) : Refusal :=
  notYet ("the shard key column \"" ++ r.shardKey ++ "\" of sharded table \"" ++ r.name ++
    "\" cannot be dropped, renamed or retyped") "change the shard key with a rekey workflow"

/-- One place to run: the database is local, or the relation is in one of its local schemas. -/
def homeOnly (sess : Session) (rv : RangeVar) : Bool := sess.localOnly || sess.localSchema rv.schemaname

def finish (sess : Session) (rv : RangeVar) (m : Migration) : Plan :=
  if homeOnly sess rv then .home true else .migration m

def relScope (rels : List Rel) : Except Refusal Scope :=
  let sharded := rels.any (·.kind ≠ .unsharded)
  let unsharded := rels.any (·.kind = .unsharded)
  if sharded && unsharded then
    .error (notYet "one DDL statement cannot touch both sharded and unsharded tables"
      "split it into one statement per table")
  else if sharded then .ok .all
  else .ok .home

def Constraint.isUnique (cs : Constraint) : Bool := cs.contype = .primary || cs.contype = .unique

/-- The check of one element of a CREATE TABLE. -/
def checkElt (r : Rel) : TableElt → Except Refusal Unit
  | .columnDef col =>
    if col.constraints.any Constraint.isUnique && col.colname ≠ r.shardKey then
      .error (keyConstraintError r [col.colname])
    else .ok ()
  | .constraint cs =>
    if cs.isUnique && !cs.keys.contains r.shardKey then .error (keyConstraintError r cs.keys)
    else .ok ()
  | .like _ _ => .ok ()

def TableElt.defines (key : String) : TableElt → Bool
  | .columnDef col => col.colname = key
  | _ => false

def checkCreateSharded (r : Rel) (c : CreateStmt) : Except Refusal Unit := do
  c.tableElts.forM (checkElt r)
  if c.tableElts.any (TableElt.defines r.shardKey) = false then
    throw (notYet ("sharded table \"" ++ r.name ++ "\" must define its shard key column \"" ++
      r.shardKey ++ "\"") "add the column, or change the shard key in pgshard.tables")

/-- The refusals of a CREATE TABLE that do not depend on the catalog. -/
def classify (sess : Session) (c : CreateStmt) : Except Refusal Unit :=
  match c.persistence with
  | .temporary => .error (notYet "temporary tables are not supported through the router" "")
  | .unlogged => if sess.localOnly then .ok () else .error (notDurable "CREATE UNLOGGED TABLE")
  | .permanent => .ok ()

def createTable (sess : Session) (c : CreateStmt) : Except Refusal Plan := do
  classify sess c
  let r ← lookupTable sess c.relation
  if r.kind = .sharded then checkCreateSharded r c
  let scope ← relScope [r]
  return finish sess c.relation { kind := "CREATE TABLE", scope := scope }

def createIndex (sess : Session) (s : IndexStmt) : Except Refusal Plan := do
  let r ← lookupTable sess s.relation
  let cols := s.indexParams.map (·.name)
  if r.kind = .sharded ∧ s.unique = true ∧ cols.contains r.shardKey = false then
    throw (keyConstraintError r cols)
  let scope ← relScope [r]
  return finish sess s.relation
    { kind := "CREATE INDEX", scope := scope, strategy := if s.concurrent then .concurrent else .direct }

def serialType (name : String) : Bool :=
  ["serial", "serial2", "serial4", "serial8", "smallserial", "bigserial"].contains name

def pgrollColumnPrefix : String := "_pgroll_new_"

/-- A column pgroll builds beside one it will replace. -/
def checkPgrollColumn (r : Rel) (column : String) : Except Refusal Unit :=
  if pgrollColumnPrefix.toList.isPrefixOf column.toList = false then .ok ()
  else
    let changed := String.ofList (column.toList.drop pgrollColumnPrefix.length)
    match r.kind with
    | .sharded =>
      if changed = r.shardKey then
        .error (notYet ("a pgroll migration of the shard key column \"" ++ r.shardKey ++
          "\" of sharded table \"" ++ r.name ++
          "\" is not available: completing it drops and renames the shard key")
          "change the shard key with a rekey workflow (UPDATE pgshard.tables), not with pgroll")
      else .ok ()
    | .reference => .error (notYet ("a pgroll migration of reference table \"" ++ r.name ++
        "\" is not available: its triggers would write each shard's copy separately")
        ("run the change as plain DDL through the router, " ++
          "or migrate the table with pgroll while it is unsharded"))
    | .unsharded => .ok ()

/-- The defaults an action gives a column. -/
def defaultsOf : AlterTableCmd → List Node
  | .addColumn col => col.rawDefault.toList ++
      (col.constraints.filter (·.contype = .default)).flatMap (·.rawExpr.toList)
  | .columnDefault _ value => value.toList
  | _ => []

/-- A default every shard would evaluate for itself is refused on a reference table.
`nonImmutableCall` names the first function of an expression that is not known to be
immutable. -/
def checkReferenceDefault (nonImmutableCall : Node → String) (r : Rel) (c : AlterTableCmd) : Except Refusal Unit :=
  if r.kind ≠ .reference then .ok ()
  else match (defaultsOf c).find? (nonImmutableCall · ≠ "") with
    | none => .ok ()
    | some d => .error (notYet ("a DEFAULT on reference table \"" ++ r.name ++ "\" cannot call " ++
        nonImmutableCall d ++ "(): the statement runs on every shard and each would evaluate it " ++
        "for itself, so the copies would differ")
        ("compute the value in the client and use a constant default, " ++
          "or leave the column without one and supply it on every INSERT"))

/-- The constraints a new column may not have. -/
def checkAddColumn (r : Rel) (col : ColumnDef) : List Constraint → Except Refusal Unit
  | [] => .ok ()
  | cs :: rest =>
    if cs.contype = .identity then .error (rewriteClass "ADD COLUMN ... GENERATED AS IDENTITY")
    else if cs.contype = .generated ∧ cs.generatedKind ≠ "v" then
      .error (rewriteClass "ADD COLUMN ... GENERATED ... STORED")
    else if r.kind = .sharded ∧ cs.isUnique = true ∧ col.colname ≠ r.shardKey then
      .error (keyConstraintError r [col.colname])
    else checkAddColumn r col rest

/-- The check of a constraint added to a table. -/
def checkAddConstraint (r : Rel) (cs : Constraint) : Except Refusal Unit :=
  if r.kind = .sharded ∧ cs.isUnique = true ∧ cs.indexname = "" ∧ cs.keys.contains r.shardKey = false then
    .error (keyConstraintError r cs.keys)
  else .ok ()

/-- The refusals of one action. -/
def checkAlterCmd (nonImmutableCall : Node → String) (r : Rel) (c : AlterTableCmd) : Except Refusal Unit := do
  checkReferenceDefault nonImmutableCall r c
  match c with
  | .alterColumnType name _ _ | .dropColumn name =>
    if r.kind = .sharded ∧ name = r.shardKey then throw (shardKeyChangeError r)
  | .setUnLogged => throw (notDurable "ALTER TABLE ... SET UNLOGGED")
  | .setLogged => throw (rewriteClass "SET LOGGED")
  | .setTableSpace => throw (rewriteClass "SET TABLESPACE")
  | .addColumn col =>
    checkPgrollColumn r col.colname
    if col.typeNames.getLast?.any serialType then throw (rewriteClass "ADD COLUMN of a serial type")
    checkAddColumn r col col.constraints
  | .addConstraint cs | .addIndex cs => checkAddConstraint r cs
  | _ => pure ()

def stableDefaults : List String :=
  ["now", "transaction_timestamp", "statement_timestamp", "current_timestamp", "localtimestamp",
   "current_date", "current_time", "localtime", "current_user", "session_user", "current_schema",
   "current_database"]

/-- A default PostgreSQL evaluates once and stores without rewriting the table. The SQL value
functions without parentheses are nodes of their own, which `sqlValueFunction` tells. -/
def stableDefault (sqlValueFunction : Node → Bool) : Node → Bool
  | .aConst _ => true
  | .typeCast arg _ => stableDefault sqlValueFunction arg
  | .funcCall names _ args =>
    args.isEmpty && match names.getLast? with
      | some name => stableDefaults.contains name.toLower
      | none => false
  | n => sqlValueFunction n

/-- An action that is applied as an online rewrite. -/
def rewriteCmd (sqlValueFunction : Node → Bool) : AlterTableCmd → Bool
  | .alterColumnType _ _ _ => true
  | .addColumn col => col.constraints.any fun cs =>
      cs.contype = .default && !(cs.rawExpr.all (stableDefault sqlValueFunction))
  | _ => false

def otherConstraints : Refusal :=
  notYet "ADD COLUMN with a volatile DEFAULT cannot carry other constraints yet"
    "add the column first, then add the constraint in its own statement"

/-- Whether the statement is an online rewrite. -/
def rewriteChange (sqlValueFunction : Node → Bool) (a : AlterTableStmt) : Except Refusal Bool :=
  if a.cmds.any (rewriteCmd sqlValueFunction) = false then .ok false
  else match a.cmds with
    | [.alterColumnType _ col cascade] =>
      if cascade then .error (notYet "ALTER COLUMN ... TYPE ... CASCADE is not available yet" "")
      else if col.collClause then
        .error (notYet ("ALTER COLUMN ... TYPE with a COLLATE clause is not available with the " ++
          "online rewrite yet") "change the type first, then the collation")
      else .ok true
    | [.addColumn col] =>
      if col.constraints.any (fun cs => cs.contype ≠ .default && cs.contype ≠ .null) then
        .error otherConstraints
      else if col.isNotNull then
        .error (notYet "ADD COLUMN with a volatile DEFAULT cannot carry other constraints yet"
          "add the column first, then SET NOT NULL in its own statement")
      else .ok true
    | _ => .error (notYet ("ALTER TABLE with several actions of which one needs an online rewrite " ++
        "is not available yet")
        "run the column type change or volatile-default ADD COLUMN as its own ALTER TABLE statement")

/-- An action that is applied in steps. -/
def multistepCmd : AlterTableCmd → Bool
  | .setNotNull _ => true
  | .detachPartition _ concurrent => !concurrent
  | .addConstraint cs =>
    match cs.contype with
    | .check | .foreign => !cs.skipValidation
    | .primary | .unique => cs.indexname = "" && cs.keys ≠ []
    | _ => false
  | _ => false

/-- The place in the foreign key of the column of that name, the last one. -/
def lastIndex (cols : List String) (name : String) : Option Nat :=
  (cols.reverse.findIdx? (· = name)).map fun back => cols.length - 1 - back

/-- A foreign key whose referenced rows may live on another shard is refused. -/
def checkColocated (sess : Session) (cs : Constraint) (r : Rel) : Except Refusal Unit := do
  let ref ← lookupTable sess cs.pktable
  let refuse (why : String) : Except Refusal Unit :=
    throw (notYet ("cross-shard foreign key: " ++ why)
      "reference a reference table, or a sharded table through the shard key with the same distribution")
  match r.kind, ref.kind with
  | .unsharded, .sharded =>
    refuse ("an unsharded table cannot reference sharded table \"" ++ ref.name ++ "\"")
  | .unsharded, _ => pure ()
  | .reference, .reference => pure ()
  | .reference, _ =>
    refuse ("reference table \"" ++ r.name ++ "\" can only reference another reference table")
  | .sharded, .reference => pure ()
  | .sharded, .sharded =>
    if (lastIndex cs.fkAttrs r.shardKey).bind (cs.pkAttrs[·]?) = some ref.shardKey then pure ()
    else refuse ("the foreign key from sharded table \"" ++ r.name ++ "\" must map its shard key \"" ++
      r.shardKey ++ "\" onto the shard key \"" ++ ref.shardKey ++ "\" of \"" ++ ref.name ++ "\"")
  | .sharded, .unsharded =>
    refuse ("sharded table \"" ++ r.name ++ "\" cannot reference unsharded table \"" ++ ref.name ++ "\"")

/-- Whether a constraint is added in steps. -/
def constraintSteps (sess : Session) (cs : Constraint) (r : Rel) : Except Refusal Bool :=
  match cs.contype with
  | .check => .ok (!cs.skipValidation)
  | .foreign =>
    match checkColocated sess cs r with
    | .error e => .error e
    | .ok _ => .ok (!cs.skipValidation)
  | .primary | .unique => .ok (!(cs.indexname ≠ "" || cs.keys = [] || cs.withoutOverlaps ||
      cs.options ≠ [] || cs.indexspace ≠ ""))
  | _ => .ok false

/-- Whether the statement is applied in steps. -/
def alterSteps (sess : Session) (a : AlterTableStmt) (r : Rel) : Except Refusal Bool :=
  match a.cmds with
  | [] => .ok false
  | [c] =>
    match c with
    | .addConstraint cs => constraintSteps sess cs r
    | .setNotNull _ => .ok true
    | .detachPartition _ concurrent => .ok (!concurrent)
    | _ => .ok false
  | cmds =>
    if cmds.any multistepCmd then
      .error (notYet ("ALTER TABLE with several actions of which one is applied online in steps " ++
        "is not available yet")
        "run the constraint, NOT NULL or DETACH PARTITION action as its own ALTER TABLE statement")
    else .ok false

/-- What the planner asks of expressions. -/
structure Exprs where
  nonImmutableCall : Node → String
  sqlValueFunction : Node → Bool

/-- ALTER TABLE on a table that several shards have to agree about. -/
def alterShared (exprs : Exprs) (sess : Session) (a : AlterTableStmt) : Except Refusal Plan := do
  let r ← lookupTable sess a.relation
  a.cmds.forM (checkAlterCmd exprs.nonImmutableCall r)
  let scope ← relScope [r]
  let rewrites ← rewriteChange exprs.sqlValueFunction a
  if rewrites then
    return finish sess a.relation { kind := "ALTER TABLE", scope := scope, strategy := .rewrite }
  let steps ← alterSteps sess a r
  return finish sess a.relation
    { kind := "ALTER TABLE", scope := scope, strategy := if steps then .multistep else .direct }

def alterTable (exprs : Exprs) (sess : Session) (a : AlterTableStmt) : Except Refusal Plan :=
  if homeOnly sess a.relation then .ok (.home true)
  else match a.objtype with
    | .table => alterShared exprs sess a
    | .index => .ok (finish sess a.relation { kind := "ALTER INDEX", scope := .existing })
    | .view => .ok (finish sess a.relation { kind := "ALTER VIEW", scope := .existing })
    | .sequence => .ok (finish sess a.relation { kind := "ALTER SEQUENCE", scope := .all })
    | .type => .ok (finish sess a.relation { kind := "ALTER TYPE", scope := .all })
    | .other => .ok (.home false)

def plan (exprs : Exprs) (sess : Session) : Statement → Except Refusal Plan
  | .createStmt c => createTable sess c
  | .indexStmt s => createIndex sess s
  | .alterTableStmt a => alterTable exprs sess a

end PgShard.Ddl
