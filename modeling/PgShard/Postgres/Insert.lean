import PgShard.Planner.Completeness
import PgShard.Planner.InsertRows
import PgShard.Planner.Keyed
import PgShard.Postgres.Equality

/-!
# Where an inserted row is put

The plan of an INSERT goes to the shard its rows' key predicates name. Where the router and
PostgreSQL agree on the operand, that shard owns the key PostgreSQL stores.
-/

namespace PgShard.Postgres

open Hoare Planner Key Placement

/-- PostgreSQL evaluates what the router fills in nowhere here. -/
lemma not_fillable {col : Column} {bind : BindParams} {item : Node} {stored : Datum}
    (h : stores col bind item = some stored) : fillable item = false := by
  cases item with
  | setToDefault => cases h
  | funcCall names windowed args => cases h
  | _ => rfl

/-- The key predicate of a row has the one value its operand is routed by. -/
lemma rowTerm_value {ranges : List Range} {bind : BindParams} {row item : Node} {k : Nat}
    {t : KeyTerm} {keyType : String} {checked : Bool} {values : List Value}
    (h : rowTerm (some k) none row = .ok t) (hitem : (rowItems row)[k]? = some item)
    (hv : termValues (routerKeys ranges bind) ⟨t, keyType, checked⟩ = .ok values) :
    ∃ key v, constOrParam item = .ok (some key) ∧ routedValue bind keyType key = .ok v ∧
      values = [v] := by
  simp only [rowTerm, Option.bind_some, hitem] at h
  split at h
  · cases h
  · cases h
  · next n hint hc =>
    cases h
    obtain ⟨bound, hbound, hv⟩ := bind_eq_ok hv
    cases hv
    rw [List.mapM_cons] at hbound
    obtain ⟨v, hparam, hbound⟩ := bind_eq_ok hbound
    cases hbound
    refine ⟨_, v, hc, ?_, rfl⟩
    simp only [routerKeys] at hparam
    split at hparam
    · next w hw =>
      cases hparam
      exact hw
    · cases hparam
  · next v hint hc =>
    cases h
    cases hv
    exact ⟨_, v, hc, rfl, rfl⟩

lemma termShards_one {keys : Keys} {t : PlanTerm} {v : Value} {shards : List Nat}
    (h : termShards keys t [v] = .ok shards) :
    ∃ shard, keys.locate (normaliseKey v t.keyType) = .ok shard ∧ shards = [shard] := by
  obtain ⟨found, hfound, h⟩ := bind_eq_ok h
  cases h
  rw [List.mapM_cons] at hfound
  obtain ⟨shard, hshard, hfound⟩ := bind_eq_ok hfound
  cases hfound
  refine ⟨shard, ?_, by simp [sortCompact]⟩
  unfold locateValue at hshard
  split at hshard
  · cases hshard
  · exact hshard

/-- The plan of an INSERT into a sharded table, with its parameters bound, goes to the shard of
each of its rows. -/
lemma insert_shards {passes : Passes} {keys : Keys} {sess : Session} {s : InsertStmt Node}
    {p p' : Plan} {r : Rel} {rows : List Node} {row item : Node} {k : Nat}
    (hp : plan passes keys sess (.insertStmt s) = .ok p)
    (hres : p.resolve keys sess.homeShard = .ok p') (hr : lookupTable sess s.relation = .ok r)
    (hk : r.kind = .sharded) (hrows : valuesOf s.selectStmt = some rows) (hrow : row ∈ rows)
    (hidx : keyIndex s.cols r.shardKey = some k) (hitem : (rowItems row)[k]? = some item) (hw : fillable item = false) :
    ∃ t, rowTerm (some k) none row = .ok t ∧
      OnShards keys p'.shards ⟨t, r.shardKeyType, r.shardKeyChecked⟩ := by
  obtain ⟨w, hwalk, hp⟩ := bind_eq_ok hp
  obtain ⟨⟨_, w'⟩, hrun, heq⟩ := bind_eq_ok hwalk
  cases heq
  obtain ⟨i, terms, hterms, ht⟩ := walkInsert_targeted hr hk hrun
  obtain ⟨j, hj⟩ := List.mem_iff_getElem?.mp hrow
  obtain ⟨t, hmem, hterm⟩ := insertTerms_row hterms hrows hidx hj hitem hw
  refine ⟨t, hterm, ?_⟩
  have hcount := count_sharded ht.rel hk
  unfold Planner.decide at hp
  simp only [ht.target, Option.bind_some, ht.rel, hk] at hp
  rw [if_neg (by simp)] at hp
  have hkeyed : w.sharded.any (fun x => w.groupTerms (w.root x.2) = []) = false := by
    cases hany : w.sharded.any (fun x => w.groupTerms (w.root x.2) = []) with
    | false => rfl
    | true =>
      unfold decideRels at hp
      rw [if_neg hcount, if_pos hany] at hp
      cases hp
  apply decideRels_keyed hcount hkeyed hp hres
  exact mem_planTerms ht.rel hk (ht.terms t hmem) (by rw [ht.root]; exact ht.rel)

/-- Two shards that split the key space. -/
def halves : List Range := [⟨minKey, -2500000000000000001, 0⟩, ⟨-2500000000000000000, maxKey, 1⟩]

/-- A table sharded by a `text` column, one by a `bigint` column. -/
def library : Session where
  database := "library"
  searchPath := ["public"]
  snapshot := some {
    tables := fun key =>
      if key.tableName = "books" then
        some { placement := .sharded, shardKey := "shelf", shardKeyType := "text", shardKeyChecked := true }
      else if key.tableName = "loans" then
        some { placement := .sharded, shardKey := "reader", shardKeyType := "bigint", shardKeyChecked := true }
      else none
    shardIDs := [0, 1] }

/-- `INSERT INTO table (col) VALUES (item)` -/
def insertOne (table col : String) (item : Node) : InsertStmt Node where
  relation := { relname := table }
  cols := [col]
  selectStmt := some (.selectStmt { valuesLists := [.list [item]] })

/-- One parameter, declared `int8` and sent in binary. -/
def fortyTwo : BindParams where
  oids := [oidInt8]
  formats := [1]
  values := [some [0, 0, 0, 0, 0, 0, 0, 42]]

lemma agrees_fortyTwo : Agrees .int8 fortyTwo (.paramRef 1) := by
  refine ⟨by simp [castsOf], ?_⟩
  have hoid : PgType.ofOid (fortyTwo.oid 0) = some .int8 := by decide
  simp [baseOf, DeclaredFits, hoid, Column.family]

end PgShard.Postgres
