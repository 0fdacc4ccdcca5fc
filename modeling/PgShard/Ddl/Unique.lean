import PgShard.Ddl.Table
import PgShard.Planner.Completeness
import PgShard.Postgres.Equality

/-!
# Uniqueness on a sharded table

A shard enforces a unique index over its own rows. That is uniqueness over the whole table when
the index has the shard key as one of its columns: rows that conflict are then on one shard.
-/

namespace PgShard.Ddl

open Hoare Planner Postgres Placement

/-- What a uniqueness constraint compares: a column by its own equality, or something else, an
expression or a column under another collation. -/
inductive KeyPart where
  | column (name : String)
  | derived
  deriving DecidableEq, Repr

/-- A unique index, a primary key, a unique constraint or an exclusion constraint by equality. -/
structure Unique where
  parts : List KeyPart
  deriving DecidableEq, Repr

def Unique.has (u : Unique) (key : String) : Prop := .column key ∈ u.parts

instance (u : Unique) (key : String) : Decidable (u.has key) := inferInstanceAs (Decidable (_ ∈ _))

def Unique.ofColumns (cols : List String) : Unique := ⟨cols.map .column⟩

def IndexElem.part (e : IndexElem) : KeyPart :=
  if e.name ≠ "" ∧ e.collation = [] then .column e.name else .derived

/-- The uniqueness a constraint of a table declares. ADD ... USING INDEX declares none that the
index does not enforce already. -/
def Constraint.uniques (cs : Constraint) : List Unique :=
  match cs.contype with
  | .primary | .unique => if cs.indexname = "" then [.ofColumns cs.keys] else []
  | .exclusion =>
    if cs.exclusions.all (fun x => x.2 = "=") then [⟨cs.exclusions.map (·.1.part)⟩] else []
  | _ => []

/-- The uniqueness the constraints of a column declare. -/
def ColumnDef.uniques (col : ColumnDef) : List Unique :=
  (col.constraints.filter Constraint.isUnique).map fun _ => .ofColumns [col.colname]

/-- The uniqueness an element of a CREATE TABLE declares. `of` is what the other tables have. -/
def TableElt.uniques (of : RangeVar → List Unique) : TableElt → List Unique
  | .columnDef col => col.uniques
  | .constraint cs => cs.uniques
  | .like relation indexes => if indexes then of relation else []

def AlterTableCmd.uniques : AlterTableCmd → List Unique
  | .addColumn col => col.uniques
  | .addConstraint cs | .addIndex cs => cs.uniques
  | _ => []

/-- The uniqueness a statement adds to its table. -/
def Statement.adds (of : RangeVar → List Unique) : Statement → List Unique
  | .createStmt c => c.tableElts.flatMap (TableElt.uniques of) ++ (c.partitionOf.toList).flatMap of
  | .indexStmt s => if s.unique then [⟨s.indexParams.map IndexElem.part⟩] else []
  | .alterTableStmt a => a.cmds.flatMap AlterTableCmd.uniques

/-- The part of it that no check of the planner looks at: what LIKE and PARTITION OF bring
along, exclusion constraints, and an index over a column under another collation. -/
def Constraint.unseen (cs : Constraint) : List Unique :=
  if cs.contype = .exclusion then cs.uniques else []

def TableElt.unseen (of : RangeVar → List Unique) : TableElt → List Unique
  | .columnDef _ => []
  | .constraint cs => cs.unseen
  | .like relation indexes => if indexes then of relation else []

def AlterTableCmd.unseen : AlterTableCmd → List Unique
  | .addConstraint cs | .addIndex cs => cs.unseen
  | _ => []

def Statement.unseen (of : RangeVar → List Unique) : Statement → List Unique
  | .createStmt c => c.tableElts.flatMap (TableElt.unseen of) ++ (c.partitionOf.toList).flatMap of
  | .indexStmt s =>
    if s.unique ∧ s.indexParams.any (·.collation ≠ []) then [⟨s.indexParams.map IndexElem.part⟩] else []
  | .alterTableStmt a => a.cmds.flatMap AlterTableCmd.unseen

lemma forM_ok {α ε : Type} {f : α → Except ε Unit} {xs : List α} {x : α}
    (h : xs.forM f = .ok ()) (hx : x ∈ xs) : f x = .ok () := by
  induction xs with
  | nil => cases hx
  | cons a rest ih =>
    obtain ⟨_, ha, h⟩ := bind_eq_ok (x := f a) (f := fun _ => rest.forM f) h
    rcases List.mem_cons.mp hx with rfl | hx
    · exact ha
    · exact ih h hx

variable {r : Rel} {u : Unique}

variable {key : String} {cs : Constraint} {of : RangeVar → List Unique} {sess : Session} {p : Plan}

lemma ofColumns_has {cols : List String} : (Unique.ofColumns cols).has key ↔ key ∈ cols := by
  simp [Unique.ofColumns, Unique.has]

/-- A constraint that passed the check has the shard key, unless it is an exclusion. -/
lemma Constraint.uniques_seen (h : cs.isUnique = true → cs.indexname = "" → key ∈ cs.keys)
    (hu : u ∈ cs.uniques) : u.has key ∨ u ∈ cs.unseen := by
  cases heq : cs.contype with
  | primary | unique =>
    simp only [Constraint.uniques, heq] at hu
    split at hu
    · next hidx =>
      cases List.mem_singleton.mp hu
      exact .inl (ofColumns_has.mpr (h (by simp [Constraint.isUnique, heq]) hidx))
    · cases hu
  | exclusion => exact .inr (by rwa [Constraint.unseen, if_pos heq])
  | _ => simp [Constraint.uniques, heq] at hu

lemma ColumnDef.uniques_seen {col : ColumnDef}
    (h : col.constraints.any Constraint.isUnique = true → col.colname = key) (hu : u ∈ col.uniques) : u.has key := by
  obtain ⟨cs, hcs, rfl⟩ := List.mem_map.mp hu
  obtain ⟨hmem, hunique⟩ := List.mem_filter.mp hcs
  rw [ofColumns_has, h (List.any_eq_true.mpr ⟨cs, hmem, hunique⟩)]
  simp

lemma checkElt_seen {elt : TableElt} (h : checkElt r elt = .ok ()) (hu : u ∈ elt.uniques of) :
    u.has r.shardKey ∨ u ∈ elt.unseen of := by
  cases elt with
  | columnDef col =>
    refine .inl (ColumnDef.uniques_seen ?_ hu)
    intro hany
    simp only [checkElt] at h
    split at h
    · cases h
    · next hno => simpa [hany] using hno
  | constraint cs =>
    refine Constraint.uniques_seen ?_ hu
    intro hunique _
    simp only [checkElt] at h
    split at h
    · cases h
    · next hno => simpa [hunique] using hno
  | like relation indexes => exact .inr hu

lemma createTable_seen {c : CreateStmt} (hr : lookupTable sess c.relation = .ok r)
    (hk : r.kind = .sharded) (h : createTable sess c = .ok p) (hu : u ∈ (Statement.createStmt c).adds of) :
    u.has r.shardKey ∨ u ∈ (Statement.createStmt c).unseen of := by
  obtain ⟨_, _, h⟩ := bind_eq_ok h
  rw [hr, ok_bind] at h
  dsimp only at h
  rw [if_pos hk] at h
  obtain ⟨_, hcheck, _⟩ := bind_eq_ok h
  obtain ⟨_, helts, _⟩ := bind_eq_ok hcheck
  rcases List.mem_append.mp hu with helt | hpart
  · obtain ⟨elt, hmem, helt⟩ := List.mem_flatMap.mp helt
    exact (checkElt_seen (forM_ok helts hmem) helt).imp_right fun hunseen =>
      List.mem_append_left _ (List.mem_flatMap.mpr ⟨elt, hmem, hunseen⟩)
  · exact .inr (List.mem_append_right _ hpart)

lemma createIndex_seen {s : IndexStmt} (hr : lookupTable sess s.relation = .ok r)
    (hk : r.kind = .sharded) (hne : r.shardKey ≠ "") (h : createIndex sess s = .ok p)
    (hu : u ∈ (Statement.indexStmt s).adds of) : u.has r.shardKey ∨ u ∈ (Statement.indexStmt s).unseen of := by
  unfold createIndex at h
  rw [hr, ok_bind] at h
  dsimp only at h
  split at h
  · cases h
  next hno =>
  unfold Statement.adds at hu
  dsimp only at hu
  split at hu
  · next hunique =>
    cases List.mem_singleton.mp hu
    by_cases hcoll : s.indexParams.any (·.collation ≠ []) = true
    · right
      simp only [Statement.unseen]
      rw [if_pos ⟨hunique, hcoll⟩]
      exact List.mem_singleton.mpr rfl
    · left
      have hmem : r.shardKey ∈ s.indexParams.map (·.name) := by simpa [hk, hunique] using hno
      obtain ⟨e, he, hname⟩ := List.mem_map.mp hmem
      have hplain : e.collation = [] := by
        by_contra hc
        exact hcoll (List.any_eq_true.mpr ⟨e, he, by simpa using hc⟩)
      refine List.mem_map.mpr ⟨e, he, ?_⟩
      rw [IndexElem.part, if_pos ⟨by rw [hname]; exact hne, hplain⟩, hname]
  · cases hu

lemma checkAddColumn_seen {col : ColumnDef} {cons : List Constraint} (hk : r.kind = .sharded)
    (h : checkAddColumn r col cons = .ok ()) (hany : cons.any Constraint.isUnique = true) :
    col.colname = r.shardKey := by
  induction cons with
  | nil => cases hany
  | cons cs rest ih =>
    unfold checkAddColumn at h
    split at h
    · cases h
    split at h
    · cases h
    split at h
    · cases h
    next hno =>
    by_cases hhead : cs.isUnique = true
    · simpa [hk, hhead] using hno
    · exact ih h (by simpa [hhead] using hany)

lemma checkAlterCmd_seen {calls : Node → String} {c : AlterTableCmd} (hk : r.kind = .sharded)
    (h : checkAlterCmd calls r c = .ok ()) (hu : u ∈ c.uniques) : u.has r.shardKey ∨ u ∈ c.unseen := by
  have hcons : ∀ cs : Constraint, checkAddConstraint r cs = .ok () → u ∈ cs.uniques →
      u.has r.shardKey ∨ u ∈ cs.unseen := by
    intro cs hcs hu
    refine Constraint.uniques_seen ?_ hu
    intro hunique hidx
    unfold checkAddConstraint at hcs
    split at hcs
    · cases hcs
    · next hno => simpa [hk, hunique, hidx] using hno
  obtain ⟨_, _, h⟩ := bind_eq_ok h
  cases c with
  | addColumn col =>
    dsimp only at h
    obtain ⟨_, _, h⟩ := bind_eq_ok h
    split at h
    · cases h
    · exact .inl (ColumnDef.uniques_seen (checkAddColumn_seen hk h) hu)
  | addConstraint cs | addIndex cs => exact hcons cs h hu
  | _ => cases hu

lemma alterShared_seen {exprs : Exprs} {a : AlterTableStmt}
    (hr : lookupTable sess a.relation = .ok r) (hk : r.kind = .sharded)
    (h : alterShared exprs sess a = .ok p) (hu : u ∈ (Statement.alterTableStmt a).adds of) :
    u.has r.shardKey ∨ u ∈ (Statement.alterTableStmt a).unseen of := by
  unfold alterShared at h
  rw [hr, ok_bind] at h
  obtain ⟨_, hcmds, _⟩ := bind_eq_ok h
  obtain ⟨c, hc, hu⟩ := List.mem_flatMap.mp hu
  exact (checkAlterCmd_seen hk (forM_ok hcmds hc) hu).imp_right fun hunseen =>
    List.mem_flatMap.mpr ⟨c, hc, hunseen⟩

/-- A statement on the sharded table with that key, as the session's planner accepts it. A
sharded table is neither in a local database nor in a local schema. -/
structure Accepted (key : String) (stmt : Statement) : Prop where
  intro ::
  planned : ∃ (exprs : Exprs) (sess : Session) (p : Plan) (r : Rel), plan exprs sess stmt = .ok p ∧
    lookupTable sess stmt.relation = .ok r ∧ r.kind = .sharded ∧ r.shardKey = key ∧
    homeOnly sess stmt.relation = false
  table : ∀ a, stmt = .alterTableStmt a → a.objtype = .table

/-- The uniqueness a statement adds has the shard key, or came past the checks. -/
lemma Accepted.seen {stmt : Statement} (h : Accepted key stmt) (hne : key ≠ "")
    (hu : u ∈ stmt.adds of) : u.has key ∨ u ∈ stmt.unseen of := by
  obtain ⟨exprs, sess, p, r, hp, hr, hk, rfl, hshared⟩ := h.planned
  cases stmt with
  | createStmt c => exact createTable_seen hr hk hp hu
  | indexStmt s => exact createIndex_seen hr hk hne hp hu
  | alterTableStmt a =>
    simp only [plan, alterTable, h.table a rfl] at hp
    rw [if_neg (by simpa [Statement.relation] using hshared)] at hp
    exact alterShared_seen hr hk hp hu

/-- A statement that took effect, with the uniqueness the other tables had then. A CREATE TABLE
IF NOT EXISTS that finds the table is none. -/
structure Event where
  stmt : Statement
  others : RangeVar → List Unique

def Event.adds (e : Event) : List Unique := e.stmt.adds e.others

def Event.unseen (e : Event) : List Unique := e.stmt.unseen e.others

/-- What uniqueness the table has after its statements. Each leaves what it adds; what was there
before may be gone. -/
inductive History : List Event → List Unique → Prop where
  | none : History [] []
  | step {events : List Event} {us us' : List Unique} {e : Event} (before : History events us)
      (adds : ∀ u ∈ e.adds, u ∈ us') (only : ∀ u ∈ us', u ∈ us ∨ u ∈ e.adds) :
      History (events ++ [e]) us'

lemma History.added {events : List Event} {us : List Unique} (h : History events us)
    (hu : u ∈ us) : ∃ e ∈ events, u ∈ e.adds := by
  induction h with
  | none => cases hu
  | step _ _ only ih =>
    rcases only u hu with hold | hnew
    · obtain ⟨e, he, hadds⟩ := ih hold
      exact ⟨e, List.mem_append_left _ he, hadds⟩
    · exact ⟨_, by simp, hnew⟩

/-- A table from which nothing was dropped. -/
lemma History.keep (events : List Event) : History events (events.flatMap Event.adds) := by
  induction events using List.reverseRecOn with
  | nil => exact .none
  | append_singleton events e ih =>
    exact .step ih (fun u hu => by simp [hu]) fun u hu => by simpa using hu

lemma constraint_unseen_adds (hu : u ∈ cs.unseen) : u ∈ cs.uniques := by
  unfold Constraint.unseen at hu
  split at hu
  · exact hu
  · cases hu

lemma Event.unseen_adds {e : Event} (hu : u ∈ e.unseen) : u ∈ e.adds := by
  unfold Event.unseen at hu
  unfold Event.adds
  cases hstmt : e.stmt with
  | createStmt c =>
    rw [hstmt] at hu
    rcases List.mem_append.mp hu with helt | hpart
    · obtain ⟨elt, hmem, helt⟩ := List.mem_flatMap.mp helt
      refine List.mem_append_left _ (List.mem_flatMap.mpr ⟨elt, hmem, ?_⟩)
      cases elt with
      | columnDef col => cases helt
      | constraint cs => exact constraint_unseen_adds helt
      | like relation indexes => exact helt
    · exact List.mem_append_right _ hpart
  | indexStmt s =>
    rw [hstmt] at hu
    simp only [Statement.unseen] at hu
    split at hu
    · next hcoll =>
      simp only [Statement.adds]
      rw [if_pos hcoll.1]
      exact hu
    · cases hu
  | alterTableStmt a =>
    rw [hstmt] at hu
    obtain ⟨c, hc, hu⟩ := List.mem_flatMap.mp hu
    refine List.mem_flatMap.mpr ⟨c, hc, ?_⟩
    cases c with
    | addConstraint cs | addIndex cs => exact constraint_unseen_adds hu
    | _ => cases hu

/-- The columns of a table, each with its equality; the shard key has that of its type. -/
structure Columns (key : String) where
  type : Column
  equal : String → Datum → Datum → Prop
  equal_key : equal key = Equal type type

/-- The constraint has the shard key, and rows it could forbid together are on one shard. -/
structure Global {key : String} (cols : Columns key) (u : Unique) : Prop where
  has : u.has key
  together : ∀ a b : String → Datum, OfColumn cols.type (a key) → OfColumn cols.type (b key) →
    (∀ name, .column name ∈ u.parts → cols.equal name (a name) (b name)) →
    ∀ ranges, locate ranges (storedID cols.type (a key)) = locate ranges (storedID cols.type (b key))

lemma global_of_has (cols : Columns key) (h : u.has key) : Global cols u where
  has := h
  together a b ha hb hequal ranges := by
    have hkey := hequal key h
    rw [cols.equal_key] at hkey
    have hplain : ¬Padded cols.type cols.type := by
      rintro ⟨hyes, hno⟩
      rw [hyes] at hno
      cases hno
    rw [hkey.position ha hb hplain]

/-- `CREATE TABLE orders (tenant_id, number, cs)` -/
def createOrders (cs : Constraint) : Statement := .createStmt {
  relation := { relname := "orders" }
  tableElts := [.columnDef { colname := "tenant_id" }, .columnDef { colname := "number" }, .constraint cs] }

def noExprs : Exprs := ⟨fun _ => "", fun _ => false⟩

lemma createOrders_accepted (h : (plan noExprs shop (createOrders cs)).toOption.isSome = true) :
    Accepted "tenant_id" (createOrders cs) := by
  cases hp : plan noExprs shop (createOrders cs) with
  | error e =>
    rw [hp] at h
    cases h
  | ok p =>
    obtain ⟨r, hr, hprops⟩ := exists_ok (x := lookupTable shop { relname := "orders" })
      (f := fun r => (r.kind, r.shardKey)) (b := (.sharded, "tenant_id")) (by decide +kernel)
    simp only [Prod.mk.injEq] at hprops
    have hshared : homeOnly shop { relname := "orders" } = false := by decide +kernel
    refine ⟨⟨noExprs, shop, p, r, hp, hr, hprops.1, hprops.2, hshared⟩, ?_⟩
    rintro a ha
    cases ha

def bigintKey : Columns "tenant_id" where
  type := .int8
  equal _ := Equal .int8 .int8
  equal_key := rfl

end PgShard.Ddl
