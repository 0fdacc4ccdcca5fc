import PgShard.Key.Literal

/-!
# The catalog as a session sees it

A table name of the statement is looked up in the schemas of the search path and becomes a
`Rel`: where the table's rows live, and by which column they are spread.
-/

namespace PgShard.Planner

/-- Where a table's rows live. Any placement the catalog spells otherwise is unsharded. -/
inductive PlacementKind where
  | unsharded
  | sharded
  | reference
  deriving DecidableEq, Repr

structure TableKey where
  database : String
  schemaName : String
  tableName : String
  deriving DecidableEq, Repr

/-- The catalog's row for one table, with what the controller's inspection of it found. -/
structure Placement where
  placement : PlacementKind := .unsharded
  shardKey : String := ""
  sequenceColumns : List String := []
  referenceChecked : Bool := false
  referenceHazards : List String := []
  shardKeyChecked : Bool := false
  shardKeyError : String := ""
  shardKeyType : String := ""
  deriving DecidableEq, Repr

/-- A view. `columns` maps each of its columns to the base table's; the program iterates
the map in no fixed order, here the order of the list. -/
structure View where
  simple : Bool
  base : TableKey
  columns : List (String × String) := []
  deriving DecidableEq, Repr

structure Database where
  defaultPlacement : PlacementKind := .unsharded
  localOnly : Bool := false
  localSchemas : List String := []
  deriving DecidableEq, Repr

structure Snapshot where
  tables : TableKey → Option Placement
  views : TableKey → Option View := fun _ => none
  databases : String → Database := fun _ => {}
  sequences : List String := []
  /-- The shards of the serving set, ascending. -/
  shardIDs : List Nat := []

structure Session where
  database : String
  homeShard : Nat := 0
  user : String := ""
  searchPath : List String := []
  snapshot : Option Snapshot

/-- One mention of a relation. `mention` is the name it was made from: the program tells two
mentions of one table apart by pointer. The shard key is named as a view names it. -/
structure Rel where
  mention : RangeVar
  aliasName : String
  name : String
  schema : String
  kind : PlacementKind := .unsharded
  viewOf : Option TableKey := none
  viewCols : List (String × String) := []
  shardKey : String := ""
  shardKeyType : String := ""
  shardKeyChecked : Bool := false
  seqCols : List String := []
  refDeclared : Bool := false
  refChecked : Bool := false
  refHazards : List String := []
  deriving DecidableEq, Repr

namespace Session

def localOnly (s : Session) : Bool :=
  match s.snapshot with
  | none => false
  | some snap => (snap.databases s.database).localOnly

def localSchema (s : Session) (schema : String) : Bool :=
  match s.snapshot with
  | none => false
  | some snap => schema ≠ "" && (snap.databases s.database).localSchemas.contains schema

def allShards (s : Session) : List Nat :=
  match s.snapshot with
  | none => []
  | some snap => snap.shardIDs

end Session

def userSchema : String := "$user"

def defaultSearchPath : List String := [userSchema, "public"]

/-- The search path with `$user` replaced by the login role, or dropped without one. -/
def resolveSearchPath (path : List String) (user : String) : List String :=
  let out := path.flatMap fun s =>
    if s = userSchema then (if user = "" then [] else [user]) else [s]
  if out = [] then ["public"] else out

/-- The schemas that never hold a declared table. -/
def systemSchema (schema : String) : Bool := ["pg_catalog", "information_schema", "pg_temp"].contains schema

/-- A base column under the name the view gives it, empty when the view leaves it out. -/
def viewAlias (cols : List (String × String)) (base : String) : String :=
  match cols.find? (fun c => c.2 == base) with
  | none => ""
  | some c => c.1

/-- The catalog's placement copied onto a relation; `name` is what a refusal calls it. -/
def applyPlacement (r : Rel) (pl : Placement) (name : String) : Except Refusal Rel :=
  match pl.placement with
  | .sharded =>
    if pl.shardKeyError ≠ "" then
      .error (notYet ("table \"" ++ name ++ "\" cannot be routed: " ++ pl.shardKeyError)
        ("change the shard key to a column whose type hashes the way it compares, " ++
          "or move the table with a placement workflow"))
    else .ok { r with
      kind := .sharded, shardKey := pl.shardKey, seqCols := pl.sequenceColumns,
      shardKeyType := pl.shardKeyType, shardKeyChecked := pl.shardKeyChecked }
  | .reference => .ok { r with
      kind := .reference, refDeclared := true,
      refChecked := pl.referenceChecked, refHazards := pl.referenceHazards }
  | .unsharded => .ok r

/-- A view resolved through the table it projects. -/
def lookupView (snap : Snapshot) (r : Rel) (v : View) : Except Refusal Rel :=
  if v.simple = false then
    .error (notYet ("view \"" ++ r.name ++ "\" cannot be routed: its query is not a projection of one table")
      "query the base tables directly")
  else match snap.tables v.base with
    | none => .error (notYet ("view \"" ++ r.name ++ "\" cannot be routed: its base table \"" ++
        v.base.tableName ++ "\" is not in the catalog") "declare the base table in pgshard.tables")
    | some base => do
      let r ← applyPlacement { r with viewOf := some v.base, viewCols := v.columns } base v.base.tableName
      return { r with shardKey := if r.shardKey ≠ "" then viewAlias v.columns r.shardKey else "" }

/-- The first schema of the list that knows the name; `none` when none does. -/
def searchSchemas (sess : Session) (rv : RangeVar) (r : Rel) : List String → Except Refusal (Option Rel)
  | [] => .ok none
  | schema :: rest =>
    if systemSchema schema then
      if rv.schemaname ≠ "" then .ok (some r) else searchSchemas sess rv r rest
    else match sess.snapshot with
      | none => searchSchemas sess rv r rest
      | some snap =>
        match snap.views ⟨sess.database, schema, rv.relname⟩ with
        | some v => (lookupView snap { r with schema := schema } v).map some
        | none => match snap.tables ⟨sess.database, schema, rv.relname⟩ with
          | some pl => (applyPlacement { r with schema := schema } pl rv.relname).map some
          | none => searchSchemas sess rv r rest

/-- A name no schema knows: it has the placement the database defaults to. -/
def undeclared (sess : Session) (rv : RangeVar) (r : Rel) : Except Refusal Rel :=
  if rv.schemaname ≠ "" ∧ sess.localSchema r.schema then .ok r
  else match sess.snapshot with
    | none => .ok r
    | some snap => match (snap.databases sess.database).defaultPlacement with
      | .reference => .ok { r with kind := .reference, refDeclared := true }
      | .sharded => .error (notYet ("table \"" ++ rv.relname ++
          "\" is not declared in the catalog and the database defaults to sharded placement")
          ("declare the table in pgshard.tables with its shard key, " ++
            "or set the database default placement to unsharded"))
      | .unsharded => .ok r

/-- The name a mention goes by: its alias, or the table's own name. -/
def RangeVar.exposed (rv : RangeVar) : String :=
  match rv.aliasClause with
  | some a => if a.aliasname = "" then rv.relname else a.aliasname
  | none => rv.relname

/-- The schemas a name is looked for in. -/
def schemasFor (sess : Session) (rv : RangeVar) : List String :=
  resolveSearchPath
    (if rv.schemaname ≠ "" then [rv.schemaname]
     else if sess.searchPath = [] then defaultSearchPath else sess.searchPath) sess.user

/-- The relation of a mention before anything is known about it. -/
def bareRel (sess : Session) (rv : RangeVar) : Rel :=
  { mention := rv, aliasName := rv.exposed, name := rv.relname
    schema := if rv.schemaname = "" ∧ sess.searchPath = [] then "public"
      else (schemasFor sess rv).headD "" }

/-- A table name looked up in the catalog. -/
def lookupTable (sess : Session) (rv : RangeVar) : Except Refusal Rel :=
  if rv.catalogname ≠ "" ∧ rv.catalogname ≠ sess.database then
    .error (notYet ("cross-database references are not implemented: \"" ++ rv.catalogname ++ "\"") "")
  else
    match searchSchemas sess rv (bareRel sess rv) (schemasFor sess rv) with
    | .error e => .error e
    | .ok (some r) => .ok r
    | .ok none => undeclared sess rv (bareRel sess rv)

/-- The unqualified name of one of the WITH items. -/
def RangeVar.isCte (rv : RangeVar) (names : List String) : Bool := rv.schemaname = "" && names.contains rv.relname

/-- A table name looked up, `none` for the name of a WITH item. -/
def lookup (sess : Session) (ctes : List String) (rv : RangeVar) : Except Refusal (Option Rel) :=
  if rv.isCte ctes then .ok none else (lookupTable sess rv).map some

/-- The registered global sequence whose per-shard object a name is, empty for none. -/
def registeredSequenceObject (sess : Session) (rv : RangeVar) : String :=
  match sess.snapshot with
  | none => ""
  | some snap =>
    let schemas :=
      if rv.schemaname ≠ "" then [rv.schemaname]
      else if sess.searchPath = [] then ["public"] else sess.searchPath
    let found := snap.sequences.find? fun name =>
      match name.splitOn "." with
      | [database, schema, table, col] =>
        database == sess.database && schemas.contains schema &&
          rv.relname ≠ "" && table ++ "_" ++ col ++ "_seq" == rv.relname
      | _ => false
    found.getD ""

/-- The global sequence a FROM item names, empty for none. -/
def globalSequenceRelation (sess : Session) (rv : RangeVar) : String :=
  match sess.snapshot with
  | none => ""
  | some snap =>
    let name := if rv.schemaname ≠ "" then rv.schemaname ++ "." ++ rv.relname else rv.relname
    if rv.relname = "" then ""
    else if snap.sequences.contains name then name
    else registeredSequenceObject sess rv

end PgShard.Planner
