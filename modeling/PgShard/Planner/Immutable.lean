import PgShard.Planner.Completeness
import PgShard.Planner.InsertRows

/-!
# The shard key stays as it was inserted

A row lives on the shard of its key, so no statement may assign the key. Through a view the
planner knows the key by one name; the view may have several.
-/

namespace PgShard.Planner

open Hoare

/-- The base column a column of a relation stands for, through any number of views. -/
inductive Denotes (snap : Snapshot) : TableKey → String → TableKey → String → Prop where
  | table {key : TableKey} {col : String} {pl : Placement} (h : snap.tables key = some pl) :
      Denotes snap key col key col
  | view {key table : TableKey} {v : View} {col mid base : String} (h : snap.views key = some v)
      (hcol : (col, mid) ∈ v.columns) (hbase : Denotes snap v.base mid table base) :
      Denotes snap key col table base

/-- The column is the shard key of the sharded table beneath. -/
def DenotesKey (snap : Snapshot) (key : TableKey) (col : String) : Prop :=
  ∃ table pl, Denotes snap key col table pl.shardKey ∧ snap.tables table = some pl ∧ pl.placement = .sharded

/-- What the catalog's own constraints and PostgreSQL's namespaces give: a name is not both a
view and a table, and a sharded table has a shard key. -/
structure Snapshot.Sound (snap : Snapshot) : Prop where
  oneNamespace : ∀ key v, snap.views key = some v → snap.tables key = none
  hasKey : ∀ key pl, snap.tables key = some pl → pl.placement = .sharded → pl.shardKey ≠ ""

/-- The columns a statement assigns in rows that exist. -/
def assigned : Node → List String
  | .updateStmt s => s.targetList.map targetName
  | .insertStmt s => s.conflictCols
  | _ => []

/-- The relation a statement writes. -/
def written? : Node → Option RangeVar
  | .updateStmt s => some s.relation
  | .insertStmt s => some s.relation
  | .deleteStmt s => some s.relation
  | _ => none

variable {sess : Session}

variable {rv : RangeVar} {r r' : Rel} {w : Walker} {snap : Snapshot} {col : String}

lemma walkUpdate_spares {s : UpdateStmt Node} (hr : lookupTable sess s.relation = .ok r)
    (hk : r.kind = .sharded) (h : walkUpdate sess s {} = .ok ((), w)) : r.shardKey ∉ s.targetList.map targetName := by
  unfold walkUpdate at h
  obtain ⟨_, w₁, _, h⟩ := run_seq h
  have h := run_read h
  obtain ⟨r', w₂, h₂, h⟩ := run_seq h
  cases (addTarget_ok hr h₂).1
  dsimp only at h
  split at h
  · cases h
  · next hno => simpa [hk] using hno

lemma walkInsert_spares {s : InsertStmt Node} (hr : lookupTable sess s.relation = .ok r)
    (hk : r.kind = .sharded) (h : walkInsert sess s {} = .ok ((), w)) : r.shardKey ∉ s.conflictCols := by
  unfold walkInsert at h
  obtain ⟨_, w₁, _, h⟩ := run_seq h
  obtain ⟨r', w₂, h₂, h⟩ := run_seq h
  cases (addTarget_ok hr h₂).1
  have h := run_read h
  dsimp only at h
  rw [if_pos hk] at h
  obtain ⟨terms, hterms, _⟩ := run_lift h
  obtain ⟨_, _, _, _, _, _, hspares⟩ := insertTerms_ok hterms
  exact hspares

/-- An accepted statement assigns no column of the name the planner knows the key by. -/
lemma plan_spares {passes : Passes} {keys : Keys} {stmt : Node} {p : Plan}
    (hr : lookupTable sess rv = .ok r) (hk : r.kind = .sharded) (ht : written? stmt = some rv)
    (h : plan passes keys sess stmt = .ok p) : r.shardKey ∉ assigned stmt := by
  cases stmt with
  | updateStmt s =>
    cases ht
    obtain ⟨w, hw, _⟩ := bind_eq_ok h
    obtain ⟨⟨_, w'⟩, hrun, _⟩ := bind_eq_ok hw
    exact walkUpdate_spares hr hk hrun
  | insertStmt s =>
    cases ht
    obtain ⟨w, hw, _⟩ := bind_eq_ok h
    obtain ⟨⟨_, w'⟩, hrun, _⟩ := bind_eq_ok hw
    exact walkInsert_spares hr hk hrun
  | deleteStmt s => simp [assigned]
  | _ => cases ht

/-- Where a sharded relation was found: a table, or a simple view of one. -/
inductive Source (snap : Snapshot) (key : TableKey) (r : Rel) : Prop where
  | table {pl : Placement} (hv : snap.views key = none) (ht : snap.tables key = some pl)
      (hp : pl.placement = .sharded) (hkey : r.shardKey = pl.shardKey)
  | view {v : View} {pl : Placement} (hv : snap.views key = some v) (ht : snap.tables v.base = some pl)
      (hp : pl.placement = .sharded)
      (hkey : r.shardKey = if pl.shardKey ≠ "" then viewAlias v.columns pl.shardKey else "")

lemma applyPlacement_sharded {pl : Placement} {name : String} (hr : r.kind = .unsharded)
    (h : applyPlacement r pl name = .ok r') (hk : r'.kind = .sharded) :
    pl.placement = .sharded ∧ r'.shardKey = pl.shardKey ∧ r'.schema = r.schema := by
  unfold applyPlacement at h
  split at h
  · next hp =>
    split at h
    · cases h
    · cases h
      exact ⟨hp, rfl, rfl⟩
  · cases h
    cases hk
  · cases h
    rw [hr] at hk
    cases hk

lemma lookupView_source {key : TableKey} {v : View} (hr : r.kind = .unsharded)
    (hv : snap.views key = some v) (h : lookupView snap r v = .ok r') (hk : r'.kind = .sharded) :
    Source snap key r' ∧ r'.schema = r.schema := by
  unfold lookupView at h
  split at h
  · cases h
  split at h
  · cases h
  · next base hbase =>
    obtain ⟨r₁, h₁, h⟩ := bind_eq_ok h
    cases h
    have hk : r₁.kind = .sharded := hk
    obtain ⟨hp, hkey, hschema⟩ := applyPlacement_sharded (by exact hr) h₁ hk
    exact ⟨.view hv hbase hp (by rw [hkey]), hschema⟩

lemma searchSchemas_source {schemas : List String} (hsnap : sess.snapshot = some snap)
    (hr : r.kind = .unsharded) (h : searchSchemas sess rv r schemas = .ok (some r'))
    (hk : r'.kind = .sharded) : Source snap ⟨sess.database, r'.schema, rv.relname⟩ r' := by
  induction schemas with
  | nil => cases h
  | cons schema rest ih =>
    unfold searchSchemas at h
    rw [hsnap] at h
    split at h
    · split at h
      · cases h
        rw [hr] at hk
        cases hk
      · exact ih h
    · dsimp only at h
      split at h
      · next v hv =>
        obtain ⟨r₁, h₁, h⟩ := map_eq_ok h
        cases h
        obtain ⟨hsource, hschema⟩ := lookupView_source (by exact hr) hv h₁ hk
        rw [hschema]
        exact hsource
      · next hv =>
        split at h
        · next pl hpl =>
          obtain ⟨r₁, h₁, h⟩ := map_eq_ok h
          cases h
          obtain ⟨hp, hkey, hschema⟩ := applyPlacement_sharded (by exact hr) h₁ hk
          rw [hschema]
          exact .table hv hpl hp hkey
        · exact ih h

lemma lookupTable_source (hsnap : sess.snapshot = some snap) (h : lookupTable sess rv = .ok r)
    (hk : r.kind = .sharded) : Source snap ⟨sess.database, r.schema, rv.relname⟩ r := by
  unfold lookupTable at h
  split at h
  · cases h
  split at h
  · cases h
  · next r' hs =>
    cases h
    exact searchSchemas_source hsnap rfl hs hk
  · unfold undeclared at h
    rw [hsnap] at h
    split at h
    · cases h
      cases hk
    · dsimp only at h
      split at h <;> cases h <;> cases hk

lemma viewAlias_mem {cols : List (String × String)} {base : String} (h : (col, base) ∈ cols) :
    (viewAlias cols base, base) ∈ cols := by
  unfold viewAlias
  cases hfind : cols.find? (fun c => c.2 == base) with
  | none =>
    have := List.find?_eq_none.mp hfind (col, base) h
    simp at this
  | some c =>
    have hmem := List.mem_of_find?_eq_some hfind
    have hbase : c.2 = base := by simpa using List.find?_some hfind
    rw [← hbase]
    exact hmem

/-- If any column of the relation is the shard key, the one the planner takes for it is. -/
lemma Source.known {key : TableKey} (hs : snap.Sound) (h : Source snap key r)
    (hcol : DenotesKey snap key col) : DenotesKey snap key r.shardKey := by
  obtain ⟨table, pl', hden, hpl', hp'⟩ := hcol
  cases h with
  | @table pl hv ht hp hkey =>
    cases hden with
    | table _ => exact ⟨key, pl, hkey ▸ .table ht, ht, hp⟩
    | view hv' _ _ =>
      rw [hv] at hv'
      cases hv'
  | @view v pl hv ht hp hkey =>
    cases hden with
    | table ht' =>
      rw [hs.oneNamespace key v hv] at ht'
      cases ht'
    | view hv' hmem hbase =>
      rw [hv] at hv'
      cases hv'
      cases hbase with
      | table ht' =>
        rw [ht] at hpl'
        cases hpl'
        rw [hkey, if_pos (hs.hasKey _ _ ht hp)]
        exact ⟨v.base, pl', .view hv (viewAlias_mem hmem) (.table ht), ht, hp⟩
      | view hv'' _ _ =>
        rw [hs.oneNamespace _ _ hv''] at ht
        cases ht

/-! ### A statement that assigns any other column -/

/-- `UPDATE rv SET col = NULL WHERE key = $1` -/
def setWhere (rv : RangeVar) (col key : String) : UpdateStmt Node where
  relation := rv
  targetList := [.resTarget col (some (.aConst .null))]
  whereClause := some (.aExpr .op ["="] (some (.columnRef [.name key])) (some (.paramRef 1)))

lemma setWhere_walk (hr : lookupTable sess rv = .ok r) (hk : r.kind = .sharded) (hcol : col ≠ r.shardKey) :
    walk sess (.updateStmt (setWhere rv col r.shardKey)) =
      .ok { rels := [r], target := some 0, terms := [(0, { params := [⟨1, .none⟩] })] } := by
  have hlook : lookup sess [] rv = .ok (some r) := by simp [lookup, RangeVar.isCte, hr, Except.map]
  have hterm : termOf (some (.paramRef 1)) false = .ok (some { params := [⟨1, .none⟩] }) := rfl
  simp [walk, walk.finalState, walkUpdate, setWhere, withClause, addTarget, hlook, targetName, hcol.symm,
    ok_bind, hk, joinedItems, fromItems, whereClause, conjuncts, conjunct, refuseCastKey, keyColumn?, keyColumn,
    stringFields, keyMatch, Walker.scopeFrom, exprs, expr, Node.children, term, hterm]
  rfl

lemma setWhere_accepted (passes : Passes) (keys : Keys) (hr : lookupTable sess rv = .ok r)
    (hk : r.kind = .sharded) (hcol : col ≠ r.shardKey) :
    ∃ p, plan passes keys sess (.updateStmt (setWhere rv col r.shardKey)) = .ok p := by
  simp only [plan, planWrite, setWhere_walk hr hk hcol, ok_bind]
  simp [decide, decideRels, hk, Walker.count, Walker.sharded, Walker.groupTerms, Walker.root, headOf,
    Walker.termsOf, Walker.planTerms, Walker.heads]

/-- The shard key of the tables beneath a relation is never assigned exactly when no two of the
relation's columns stand for it. -/
theorem shardKey_immutable_iff (sess : Session) (snap : Snapshot) (rv : RangeVar) (r : Rel)
    (hsnap : sess.snapshot = some snap) (hsound : snap.Sound) (hr : lookupTable sess rv = .ok r)
    (hk : r.kind = .sharded) : (∀ (passes : Passes) (keys : Keys) (stmt : Node) (p : Plan), written? stmt = some rv →
        plan passes keys sess stmt = .ok p → ∀ col ∈ assigned stmt,
          ¬DenotesKey snap ⟨sess.database, r.schema, rv.relname⟩ col) ↔
      ∀ col col', DenotesKey snap ⟨sess.database, r.schema, rv.relname⟩ col →
        DenotesKey snap ⟨sess.database, r.schema, rv.relname⟩ col' → col = col' := by
  have hsource := lookupTable_source hsnap hr hk
  constructor
  · intro h
    -- a column that is the key goes by the planner's name for it, or could be assigned
    have hname : ∀ col, DenotesKey snap ⟨sess.database, r.schema, rv.relname⟩ col →
        col = r.shardKey := by
      intro col hcol
      by_contra hne
      obtain ⟨p, hp⟩ := setWhere_accepted acceptAll oneShard hr hk hne
      exact h acceptAll oneShard _ p rfl hp col (by simp [assigned, setWhere, targetName]) hcol
    intro col col' hcol hcol'
    rw [hname col hcol, hname col' hcol']
  · intro h passes keys stmt p ht hp col hcol hden
    have hsame := h col r.shardKey hden (hsource.known hsound hden)
    rw [hsame] at hcol
    exact plan_spares hr hk ht hp hcol

lemma shopCatalog_sound : shopCatalog.Sound := by
  refine ⟨?_, ?_⟩
  · intro key v hv
    cases hv
  · intro key pl hpl hsharded
    simp only [shopCatalog] at hpl
    split at hpl
    · cases hpl
      decide
    · split at hpl
      · cases hpl
        cases hsharded
      · cases hpl

lemma orders_key (h : DenotesKey shopCatalog ⟨"shop", "public", "orders"⟩ col) : col = "tenant_id" := by
  obtain ⟨table, pl, hden, hpl, _⟩ := h
  cases hden with
  | table _ =>
    cases hpl
    rfl
  | view hv _ _ => cases hv

theorem shardKey_immutable_orders :
    ∃ p, plan acceptAll oneShard shop (.updateStmt (setWhere { relname := "orders" } "note" "tenant_id")) =
        .ok p ∧ ¬DenotesKey shopCatalog ⟨"shop", "public", "orders"⟩ "note" := by
  obtain ⟨r, hr, hprops⟩ := exists_ok (x := lookupTable shop { relname := "orders" })
    (f := fun r => (r.schema, r.kind, r.shardKey)) (b := ("public", .sharded, "tenant_id"))
    (by decide +kernel)
  simp only [Prod.mk.injEq] at hprops
  obtain ⟨hschema, hk, hkey⟩ := hprops
  obtain ⟨p, hp⟩ := setWhere_accepted acceptAll oneShard hr hk (show "note" ≠ r.shardKey by simp [hkey])
  rw [hkey] at hp
  have himm := shardKey_immutable_iff shop shopCatalog { relname := "orders" } r rfl shopCatalog_sound hr hk
  rw [hschema] at himm
  refine ⟨p, hp, himm.mpr ?_ acceptAll oneShard _ p rfl hp "note" (by decide)⟩
  intro col col' hcol hcol'
  rw [orders_key hcol, orders_key hcol']

/-- A view that has the shard key of `orders` twice. -/
def shopTwice : Session :=
  { shop with snapshot := some { shopCatalog with
      views := fun key => if key.tableName = "twice" then
        some { simple := true, base := ⟨"shop", "public", "orders"⟩,
               columns := [("a", "tenant_id"), ("b", "tenant_id")] } else none } }

/-- `UPDATE twice SET b = 7 WHERE a = 5` assigns the shard key of `orders`. -/
theorem shardKey_assigned_twice : ∃ p snap, plan acceptAll oneShard shopTwice (.updateStmt {
        relation := { relname := "twice" }
        targetList := [.resTarget "b" (some (.aConst (.ival 7)))]
        whereClause := some (.aExpr .op ["="] (some (.columnRef [.name "a"])) (some (.aConst (.ival 5)))) }) =
        .ok p ∧ p.kind = .equalUnique ∧ shopTwice.snapshot = some snap ∧
      DenotesKey snap ⟨"shop", "public", "twice"⟩ "b" := by
  obtain ⟨p, hp, hkind⟩ := exists_ok (f := Plan.kind) (b := .equalUnique)
    (x := plan acceptAll oneShard shopTwice (.updateStmt {
      relation := { relname := "twice" }
      targetList := [.resTarget "b" (some (.aConst (.ival 7)))]
      whereClause := some (.aExpr .op ["="] (some (.columnRef [.name "a"])) (some (.aConst (.ival 5)))) }))
    (by decide +kernel)
  refine ⟨p, _, hp, hkind, rfl, ⟨"shop", "public", "orders"⟩, _, ?_, rfl, rfl⟩
  exact .view rfl (by decide) (.table rfl)

end PgShard.Planner
