import PgShard.Ddl.Table
import PgShard.Hoare.Leads
import PgShard.Planner.Statement

/-!
# Views over sharded tables

CREATE VIEW as the planner takes it: where the view is created, and the projection it is recorded
as, by which the router later routes reads of it.
-/

namespace PgShard.Ddl

open Hoare Planner

structure ViewStmt where
  view : RangeVar
  /-- The column names after the view's name. -/
  aliases : List String := []
  query : Node

/-- What one CREATE or DROP records in the catalog's views. The source's shape is simple or not. -/
structure ViewChange where
  schema : String := ""
  name : String := ""
  drop : Bool := false
  dropSchema : Bool := false
  dropBase : Bool := false
  baseSchema : String := ""
  baseName : String := ""
  simple : Bool := false
  columns : List (String × String) := []
  deriving DecidableEq, Repr

/-- One assignment of the column map. -/
def setColumn (cols : List (String × String)) (out base : String) : List (String × String) :=
  if cols.any (·.1 = out) then cols.map fun c => if c.1 = out then (out, base) else c
  else cols ++ [(out, base)]

/-- The column a select-list item projects, under the name it is given. -/
def projected : Node → Option (String × String)
  | .resTarget name (some (.columnRef fields)) =>
    match fields.getLast? with
    | some (.name base) => if base = "" then none else some (if name = "" then base else name, base)
    | _ => none
  | _ => none

/-- The map of a select list; none when an item is not a plain column. -/
def columnMap (cols : List (String × String)) : List Node → Option (List (String × String))
  | [] => some cols
  | t :: rest =>
    match projected t with
    | none => none
    | some (out, base) => columnMap (setColumn cols out base) rest

/-- The clauses that leave a SELECT a projection of the one table in its FROM. -/
def projection (s : SelectStmt Node) : Bool :=
  s.distinctClause.isEmpty && s.groupClause.isEmpty && s.havingClause.isNone &&
    s.withClause.isNone && match s.fromClause with
      | [.rangeVar _] => true
      | _ => false

/-- The source's `viewChange`. -/
def viewChange (v : ViewStmt) (rels : List Rel) : ViewChange :=
  let c : ViewChange := { schema := v.view.schemaname, name := v.view.relname }
  match v.query, rels with
  | .selectStmt s, [r] =>
    if projection s then
      match columnMap [] s.targetList with
      | some (col :: cols) =>
        { c with simple := true, columns := col :: cols, baseSchema := r.schema, baseName := r.name }
      | _ => c
    else c
  | _, _ => c

/-- Where a CREATE VIEW runs: on the home shard, or as a migration with what it records. -/
inductive ViewPlan where
  | home
  | migration (scope : Scope) (change : ViewChange)
  deriving DecidableEq, Repr

def localView (v : ViewStmt) (r : Rel) : Refusal :=
  notYet ("a view in local schema \"" ++ v.view.schemaname ++
    "\" cannot read sharded or reference table \"" ++ r.name ++
    "\": it would read the home shard's rows only") "create the view outside the database's local_schemas"

def notRoutable (r : Rel) : Refusal :=
  notYet ("a view over sharded table \"" ++ r.name ++
    "\" cannot be routed: its query is not a projection of one table")
    "project the table's columns directly, without joins, aggregates, expressions, DISTINCT, GROUP BY or *"

/-- A view in a local schema runs on the home shard and is not recorded. -/
def checkLocalView (sess : Session) (v : ViewStmt) (rels : List Rel) : Except Refusal Unit :=
  if sess.localSchema v.view.schemaname && !sess.localOnly then
    match rels.find? (·.kind ≠ .unsharded) with
    | some r => .error (localView v r)
    | none => .ok ()
  else .ok ()

/-- A view over a sharded table has to have a column map to route by. -/
def checkRoutable (change : ViewChange) (rels : List Rel) : Except Refusal Unit :=
  if change.simple then .ok ()
  else
    match rels.find? (·.kind = .sharded) with
    | some r => .error (notRoutable r)
    | none => .ok ()

/-- The source's `createView`: the query is planned as a statement of its own first. -/
def createView (passes : Passes) (keys : Keys) (sess : Session) (v : ViewStmt) : Except Refusal ViewPlan := do
  let _ ← Planner.plan passes keys sess v.query
  let w ← walk sess v.query
  checkLocalView sess v w.rels
  checkRoutable (viewChange v w.rels) w.rels
  return if homeOnly sess v.view then .home
    else .migration (if w.rels.any (·.kind ≠ .unsharded) then .all else .home) (viewChange v w.rels)

lemma createView_run {passes : Passes} {keys : Keys} {sess : Session} {v : ViewStmt}
    {p : ViewPlan} (h : createView passes keys sess v = .ok p) :
    ∃ w, walk sess v.query = .ok w ∧ checkLocalView sess v w.rels = .ok () ∧
      checkRoutable (viewChange v w.rels) w.rels = .ok () ∧
      p = if homeOnly sess v.view then .home
        else .migration (if w.rels.any (·.kind ≠ .unsharded) then .all else .home)
          (viewChange v w.rels) := by
  unfold createView at h
  obtain ⟨_, _, h⟩ := bind_eq_ok h
  obtain ⟨w, hw, h⟩ := bind_eq_ok h
  obtain ⟨_, hlocal, h⟩ := bind_eq_ok h
  obtain ⟨_, hroutable, h⟩ := bind_eq_ok h
  cases h
  exact ⟨w, hw, hlocal, hroutable, rfl⟩

lemma createView_change {passes : Passes} {keys : Keys} {sess : Session} {v : ViewStmt}
    {scope : Scope} {change : ViewChange} (h : createView passes keys sess v = .ok (.migration scope change)) :
    ∃ w, walk sess v.query = .ok w ∧ change = viewChange v w.rels := by
  obtain ⟨w, hw, _, _, hplan⟩ := createView_run h
  refine ⟨w, hw, ?_⟩
  cases hh : homeOnly sess v.view <;> rw [hh] at hplan <;> cases hplan
  rfl

/-- A view recorded as simple is a SELECT that projects columns of one table. -/
lemma viewChange_simple {v : ViewStmt} {rels : List Rel} (h : (viewChange v rels).simple = true) :
    ∃ s rv, v.query = .selectStmt s ∧ s.fromClause = [.rangeVar rv] ∧ s.withClause = none ∧
      s.distinctClause = [] ∧ s.groupClause = [] ∧ s.havingClause = none ∧
      columnMap [] s.targetList = some (viewChange v rels).columns := by
  unfold viewChange at h ⊢
  dsimp only at h ⊢
  split at h
  · rename_i s r hq
    split at h
    · rename_i hp
      split at h
      · rename_i col cols hmap
        have hcols := hp
        simp only [projection, Bool.and_eq_true, List.isEmpty_iff, Option.isNone_iff_eq_none] at hp
        obtain ⟨⟨⟨⟨hd, hg⟩, hh⟩, hwith⟩, hfrom⟩ := hp
        split at hfrom
        · rename_i rv hrv
          exact ⟨s, rv, hq, hrv, hwith, hd, hg, hh, by rw [if_pos hcols]; exact hmap⟩
        · cases hfrom
      · cases h
    · cases h
  · cases h

/-! ### Looking a column up in the map -/

lemma lookup_replace (cols : List (String × String)) (out base name : String) :
    (cols.map fun c => if c.1 = out then (out, base) else c).lookup name =
      if name = out then (cols.lookup name).map fun _ => base else cols.lookup name := by
  induction cols with
  | nil => simp
  | cons c cols ih =>
    obtain ⟨k, b⟩ := c
    by_cases hk : k = out
    · by_cases hn : name = out
      · simp [hk, hn]
      · have hne : (name == out) = false := by simpa using hn
        simp only [List.map_cons, hk, if_true, List.lookup_cons, hne]
        rw [ih]
    · by_cases hn : name = k
      · simp [hn, hk]
      · have hne : (name == k) = false := by simpa using hn
        simp only [List.map_cons, if_neg hk, List.lookup_cons, hne]
        rw [ih]

lemma lookup_isSome (cols : List (String × String)) (name : String) :
    (cols.lookup name).isSome = cols.any (·.1 = name) := by
  induction cols with
  | nil => rfl
  | cons c cols ih =>
    obtain ⟨k, b⟩ := c
    by_cases hn : name = k
    · simp [hn]
    · have hne : (name == k) = false := by simpa using hn
      have hne' : ¬k = name := fun h => hn h.symm
      simp [List.lookup_cons, hne, hne', ih]

lemma lookup_setColumn (cols : List (String × String)) (out base name : String) :
    (setColumn cols out base).lookup name = if name = out then some base else cols.lookup name := by
  have hsome := lookup_isSome cols out
  unfold setColumn
  by_cases hin : cols.any (·.1 = out)
  · rw [if_pos hin, lookup_replace]
    by_cases hn : name = out
    · obtain ⟨b, hb⟩ := Option.isSome_iff_exists.mp (hsome.trans hin)
      simp [hn, hb]
    · rw [if_neg hn, if_neg hn]
  · rw [if_neg hin, List.lookup_append]
    by_cases hn : name = out
    · have hnone : cols.lookup out = none := by
        rw [← Option.not_isSome_iff_eq_none, hsome]
        exact hin
      simp [hn, hnone]
    · have hne : (name == out) = false := by simpa using hn
      simp [List.lookup_cons, hne, hn]

/-- The column the last item of a name projects. -/
def spelled (targets : List Node) (name : String) : Option String := (targets.filterMap projected).reverse.lookup name

lemma lookup_columnMap {cols map : List (String × String)} {targets : List Node}
    (h : columnMap cols targets = some map) (name : String) :
    map.lookup name = (spelled targets name).or (cols.lookup name) := by
  induction targets generalizing cols with
  | nil =>
    cases h
    rfl
  | cons t rest ih =>
    unfold columnMap at h
    cases ht : projected t with
    | none => simp [ht] at h
    | some p =>
      obtain ⟨out, base⟩ := p
      simp only [ht] at h
      have hspelled : spelled (t :: rest) name =
          (spelled rest name).or (if name = out then some base else none) := by
        by_cases hn : name = out
        · simp [spelled, ht, List.lookup_append, hn]
        · have hne : (name == out) = false := by simpa using hn
          simp [spelled, ht, List.lookup_append, List.lookup_cons, hne, hn]
      rw [ih h, lookup_setColumn, hspelled, Option.or_assoc]
      split <;> simp

end PgShard.Ddl
