import PgShard.Ddl.View

/-!
# The rows of pgshard.views

What the planner attaches to a statement about views, tables or schemas, and what the catalog does
with it once the statement has completed on the shards.
-/

namespace PgShard.Ddl

open Planner

/-- The statements a view can come from, go with or change by. An object of a DROP is the name the
source's `qualifiedName` reads off it. -/
inductive ViewDdl where
  | create (v : ViewStmt) (replace : Bool)
  | dropTable (objects : List RangeVar) (cascade missingOk : Bool)
  | dropView (objects : List RangeVar) (cascade missingOk : Bool)
  | dropSchema (names : List String) (cascade missingOk : Bool)
  | renameView (relation : RangeVar) (newname : String)
  | renameColumn (relation : RangeVar) (subname newname : String)
  | renameSchema (subname newname : String)
  | setSchema (relation : RangeVar) (newschema : String)

/-- The schema of every object a statement names. A SET SCHEMA is not among the statements the
source looks at. -/
def ViewDdl.statementSchemas : ViewDdl → List String
  | .create v _ => [v.view.schemaname]
  | .dropTable objects _ _ | .dropView objects _ _ => objects.map (·.schemaname)
  | .dropSchema names _ _ => names
  | .renameView rv _ | .renameColumn rv _ _ => [rv.schemaname]
  | .renameSchema subname _ => [subname]
  | .setSchema _ _ => []

/-- The statement runs on the home shard alone, and nothing is recorded. -/
def ViewDdl.homeOnly (sess : Session) (d : ViewDdl) : Bool :=
  sess.localOnly || (!d.statementSchemas.isEmpty && d.statementSchemas.all sess.localSchema)

def localSchemaRename (name : String) : Refusal :=
  notYet ("renaming schema \"" ++ name ++ "\" is not available: it is listed in local_schemas, " ++
      "and the listing would go on naming a schema that no longer exists")
    "remove it from pgshard.databases.local_schemas, rename it, and list the new name"

/-- DROP TABLE: CASCADE on one table takes the views over it along. The schema is the one the name
resolved to. -/
def dropTable (sess : Session) (objects : List RangeVar) (cascade : Bool) : Except Refusal (Option ViewChange) := do
  let rels ← objects.mapM (lookupTable sess)
  let _ ← relScope rels
  return match objects, cascade with
    | [rv], true => some {
        baseSchema := if rv.schemaname = "" then (rels.head?.map (·.schema)).getD "" else rv.schemaname
        baseName := rv.relname, dropBase := true }
    | _, _ => none

/-- What the planner attaches to the migration of a statement other than CREATE VIEW. -/
def attached (sess : Session) : ViewDdl → Except Refusal (Option ViewChange)
  | .dropTable objects cascade _ => dropTable sess objects cascade
  | .dropView [rv] _ _ => .ok (some { schema := rv.schemaname, name := rv.relname, drop := true })
  | .dropSchema [name] _ _ => .ok (some { schema := name, dropSchema := true })
  | .renameSchema subname _ =>
    if sess.localSchema subname then .error (localSchemaRename subname) else .ok none
  | _ => .ok none

/-- The change a statement records when it completes; none when it records nothing. -/
def recordedChange (passes : Passes) (keys : Keys) (sess : Session) (d : ViewDdl) :
    Except Refusal (Option ViewChange) :=
  match d with
  | .create v _ => (createView passes keys sess v).map fun
    | .home => none
    | .migration _ change => some change
  | d => (attached sess d).map fun change => if d.homeOnly sess then none else change

structure QName where
  schema : String
  name : String
  deriving DecidableEq, Repr

structure ViewRow where
  baseSchema : String
  baseName : String
  simple : Bool
  columns : List (String × String)
  deriving DecidableEq, Repr

/-- The rows of one database. -/
abbrev ViewRows := QName → Option ViewRow

/-- A schema left out is public. -/
def orPublic (schema : String) : String := if schema = "" then "public" else schema

/-- The source's `ViewMirrorStatements`, with what its statements do. -/
def viewMirror (rows : ViewRows) : Option ViewChange → ViewRows
  | none => rows
  | some c =>
    if c.dropSchema then fun q => if q.schema = orPublic c.schema then none else rows q
    else if c.dropBase then fun q =>
      (rows q).filter fun r => !(r.baseSchema = orPublic c.baseSchema && r.baseName = c.baseName)
    else if c.name = "" then rows
    else if c.drop then fun q => if q = ⟨orPublic c.schema, c.name⟩ then none else rows q
    else fun q =>
      if q = ⟨orPublic c.schema, c.name⟩ then some ⟨c.baseSchema, c.baseName, c.simple, c.columns⟩
      else rows q

lemma viewMirror_dropBase (rows : ViewRows) (schema name : String) (q : QName) :
    viewMirror rows (some { baseSchema := schema, baseName := name, dropBase := true }) q =
      (rows q).filter fun r => !(r.baseSchema = orPublic schema && r.baseName = name) := rfl

/-- What a CREATE VIEW records. -/
def rowOf (c : ViewChange) : ViewRow := ⟨c.baseSchema, c.baseName, c.simple, c.columns⟩

lemma viewChange_names (v : ViewStmt) (rels : List Rel) :
    (viewChange v rels).schema = v.view.schemaname ∧ (viewChange v rels).name = v.view.relname ∧
      (viewChange v rels).drop = false ∧ (viewChange v rels).dropSchema = false ∧
      (viewChange v rels).dropBase = false := by
  unfold viewChange
  dsimp only
  split
  · split
    · split <;> simp
    · simp
  · simp

lemma viewMirror_put (rows : ViewRows) (c : ViewChange) (hd : c.drop = false)
    (hds : c.dropSchema = false) (hdb : c.dropBase = false) (hname : c.name ≠ "") (q : QName) :
    viewMirror rows (some c) q =
      if q = ⟨orPublic c.schema, c.name⟩ then some (rowOf c) else rows q := by
  simp [viewMirror, hd, hds, hdb, hname, rowOf]

lemma viewMirror_create (rows : ViewRows) (v : ViewStmt) (rels : List Rel) (hname : v.view.relname ≠ "") (q : QName) :
    viewMirror rows (some (viewChange v rels)) q =
      if q = ⟨orPublic v.view.schemaname, v.view.relname⟩ then some (rowOf (viewChange v rels))
      else rows q := by
  obtain ⟨hs, hn, hd, hds, hdb⟩ := viewChange_names v rels
  rw [viewMirror_put rows _ hd hds hdb (by rw [hn]; exact hname), hs, hn]

/-- A view recorded as simple is over the one relation the walk found; another one has no base. -/
lemma viewChange_base (v : ViewStmt) (rels : List Rel) :
    (∃ r, rels = [r] ∧ (viewChange v rels).baseSchema = r.schema ∧
        (viewChange v rels).baseName = r.name ∧ (viewChange v rels).simple = true) ∨
      (viewChange v rels).simple = false ∧ (viewChange v rels).baseName = "" := by
  unfold viewChange
  dsimp only
  split
  · rename_i r _
    split
    · split
      · exact .inl ⟨r, rfl, rfl, rfl, rfl⟩
      · exact .inr ⟨rfl, rfl⟩
    · exact .inr ⟨rfl, rfl⟩
  · exact .inr ⟨rfl, rfl⟩

end PgShard.Ddl
