import PgShard.Ddl.Local
import PgShard.Ddl.Unique

/-!
# The foreign keys the planner lets through

The planner checks a foreign key that is the only action of an ALTER TABLE, by the names of its
columns. One that CREATE TABLE, ADD COLUMN or an action among others declares is not looked at.
-/

namespace PgShard.Ddl

open Hoare Planner Postgres Placement

/-- A foreign key as a statement declares it; without referenced columns it means the primary
key. -/
structure ForeignKey where
  cols : List String
  pktable : RangeVar
  pkcols : List String
  deriving DecidableEq, Repr

/-! ### The foreign keys of a statement -/

def Constraint.foreignKey (cs : Constraint) : ForeignKey := ⟨cs.fkAttrs, cs.pktable, cs.pkAttrs⟩

def Constraint.foreignKeys (cs : Constraint) : List ForeignKey :=
  if cs.contype = .foreign then [cs.foreignKey] else []

/-- REFERENCES of a column. -/
def ColumnDef.foreignKeys (col : ColumnDef) : List ForeignKey :=
  (col.constraints.filter (·.contype = .foreign)).map fun cs => ⟨[col.colname], cs.pktable, cs.pkAttrs⟩

def TableElt.foreignKeys : TableElt → List ForeignKey
  | .columnDef col => col.foreignKeys
  | .constraint cs => cs.foreignKeys
  | .like _ _ => []

def AlterTableCmd.foreignKeys : AlterTableCmd → List ForeignKey
  | .addColumn col => col.foreignKeys
  | .addConstraint cs => cs.foreignKeys
  | _ => []

def Statement.foreignKeys : Statement → List ForeignKey
  | .createStmt c => c.tableElts.flatMap TableElt.foreignKeys
  | .indexStmt _ => []
  | .alterTableStmt a => a.cmds.flatMap AlterTableCmd.foreignKeys

/-- The statements whose foreign key the planner checks. -/
def checked (sess : Session) : Statement → Bool
  | .alterTableStmt a => !homeOnly sess a.relation && a.objtype = .table && match a.cmds with
    | [.addConstraint _] => true
    | _ => false
  | _ => false

variable {sess : Session} {r ref : Rel}

lemma lastIndex_zip {cols refs : List String} {name ref : String}
    (h : (lastIndex cols name).bind (refs[·]?) = some ref) : (name, ref) ∈ cols.zip refs := by
  obtain ⟨i, hi, href⟩ := Option.bind_eq_some_iff.mp h
  obtain ⟨back, hback, rfl⟩ := Option.map_eq_some_iff.mp hi
  obtain ⟨hlt, heq, _⟩ := List.findIdx?_eq_some_iff_getElem.mp hback
  apply List.mem_of_getElem? (i := cols.length - 1 - back)
  rw [List.getElem?_zip_eq_some]
  refine ⟨?_, href⟩
  rw [List.length_reverse] at hlt
  rw [List.getElem_reverse] at heq
  rw [List.getElem?_eq_getElem (by omega)]
  simpa using heq

/-- The side of a relation: its placement and its shard key. -/
structure Side.Of (s : Side) (r : Rel) : Prop where
  kind : s.kind = r.kind
  key : s.key = r.shardKey

/-- The columns a foreign key compares; `pk` is the primary key of the referenced table. -/
def ForeignKey.pairs (fk : ForeignKey) (pk : List String) : List (String × String) :=
  fk.cols.zip (if fk.pkcols = [] then pk else fk.pkcols)

lemma checkColocated_mapped {cs : Constraint} {s t : Side} (pk : List String) (hs : s.Of r) (ht : t.Of ref)
    (href : lookupTable sess cs.pktable = .ok ref) (h : checkColocated sess cs r = .ok ()) :
    Mapped s t (cs.foreignKey.pairs pk) := by
  unfold checkColocated at h
  rw [href, ok_bind] at h
  unfold Mapped
  rw [hs.kind, ht.kind]
  dsimp only at h
  cases hrk : r.kind <;> cases hfk : ref.kind <;> simp only [hrk, hfk] at h ⊢ <;> try cases h
  split at h
  · next hmap =>
    have hne : cs.pkAttrs ≠ [] := by
      intro hnil
      simp [hnil] at hmap
    unfold ForeignKey.pairs Constraint.foreignKey
    rw [if_neg hne, hs.key, ht.key]
    exact lastIndex_zip hmap
  · cases h

lemma alterShared_colocated {exprs : Exprs} {a : AlterTableStmt} {cs : Constraint} {p : Plan}
    (hr : lookupTable sess a.relation = .ok r) (hc : a.cmds = [.addConstraint cs])
    (hfk : cs.contype = .foreign) (h : alterShared exprs sess a = .ok p) : checkColocated sess cs r = .ok () := by
  unfold alterShared at h
  rw [hr, ok_bind] at h
  obtain ⟨_, _, h⟩ := bind_eq_ok h
  obtain ⟨scope, _, h⟩ := bind_eq_ok h
  have hrewrite : rewriteChange exprs.sqlValueFunction a = .ok false := by
    simp [rewriteChange, hc, rewriteCmd]
  rw [hrewrite, ok_bind, if_neg (by simp)] at h
  obtain ⟨steps, hsteps, _⟩ := bind_eq_ok h
  simp only [alterSteps, hc, constraintSteps, hfk] at hsteps
  split at hsteps
  · cases hsteps
  · next hok => exact hok

lemma checked_mapped {exprs : Exprs} {stmt : Statement} {p : Plan} {fk : ForeignKey} {s t : Side}
    (pk : List String) (hp : plan exprs sess stmt = .ok p) (hr : lookupTable sess stmt.relation = .ok r)
    (hfk : fk ∈ stmt.foreignKeys) (href : lookupTable sess fk.pktable = .ok ref) (hs : s.Of r)
    (ht : t.Of ref) (hc : checked sess stmt = true) : Mapped s t (fk.pairs pk) := by
  cases stmt with
  | createStmt c => cases hc
  | indexStmt i => cases hc
  | alterTableStmt a =>
    simp only [checked, Bool.and_eq_true, Bool.not_eq_true', decide_eq_true_eq] at hc
    obtain ⟨⟨hshared, htable⟩, hone⟩ := hc
    split at hone
    · next cs hcmds =>
      simp only [Statement.foreignKeys, hcmds, List.flatMap_singleton, AlterTableCmd.foreignKeys,
        Constraint.foreignKeys] at hfk
      split at hfk
      · next hforeign =>
        cases List.mem_singleton.mp hfk
        simp only [plan, alterTable, htable] at hp
        rw [if_neg (by simpa using hshared)] at hp
        exact checkColocated_mapped pk hs ht href (alterShared_colocated hr hcmds hforeign hp)
      · cases hfk
    · cases hone

/-- A table of the shop, all of its columns `bigint`. -/
def bigints (kind : PlacementKind) : Side := ⟨kind, "tenant_id", fun _ => some .int8, fun _ => rfl⟩

/-- `FOREIGN KEY (tenant_id, order_id) REFERENCES orders (tenant_id, number)` -/
def toOrders : Constraint where
  contype := .foreign
  fkAttrs := ["tenant_id", "order_id"]
  pktable := { relname := "orders" }
  pkAttrs := ["tenant_id", "number"]

/-- `ALTER TABLE items ADD` the foreign key -/
def alterItems : Statement := .alterTableStmt { relation := { relname := "items" }, cmds := [.addConstraint toOrders] }

/-- `CREATE TABLE settings` with the foreign key -/
def createSettings : Statement := .createStmt {
  relation := { relname := "settings" }
  tableElts := [.columnDef { colname := "tenant_id" }, .columnDef { colname := "order_id" }, .constraint toOrders] }

lemma shop_rel (name : String) (kind : PlacementKind) (key : String)
    (h : (lookupTable shop { relname := name }).toOption.map (fun r => (r.kind, r.shardKey)) = some (kind, key)) :
    ∃ r, lookupTable shop { relname := name } = .ok r ∧ r.kind = kind ∧ r.shardKey = key := by
  obtain ⟨r, hr, hprops⟩ := exists_ok h
  simp only [Prod.mk.injEq] at hprops
  exact ⟨r, hr, hprops.1, hprops.2⟩

end PgShard.Ddl
