import PgShard.Planner.WalkTrace

/-!
# Which tables a plan knows of

The walk looks up the table names that stand where it looks, and knows WITH items by name
alone. A plan knows every table the statement reads exactly when each name stands at such a
place and no WITH item of the same name was passed before it.
-/

namespace PgShard.Planner

open Hoare

variable {sess : Session}

lemma tracks_addTarget (rv : RangeVar) (what : String) :
    Tracks (Sim sess) (addTarget sess rv what) (written rv true) := by
  unfold addTarget
  intro past
  refine Leads.get.bind fun w₀ => ?_
  refine Leads.bind (Q := fun o w => Sim sess past w ∧ lookup sess w.ctes rv = .ok o) ?_ ?_
  · apply Leads.lift
    rintro o w ho ⟨rfl, hs⟩
    exact ⟨hs, ho⟩
  · rintro (_ | r) w a w' ⟨hs, ho⟩ heq
    · cases heq
    · cases heq
      exact hs.look false ho rfl rfl

/-- The rows of a VALUES list stand beside clauses the walk does not look into. -/
lemma heard_source_values {o : Option Node} {rows : List Node} (scope : List String)
    (h : valuesOf o = some rows) (hrows : rows ≠ []) :
    ∃ scope', heard (scanSource scope o) = heard (scans .visited scope' rows) := by
  unfold valuesOf at h
  split at h <;> cases h
  · next q =>
    refine ⟨stmtScope q.withClause scope, ?_⟩
    rw [scanSource, if_neg hrows]
    simp only [heard_append, heard_skipped.2.1 .skipped _ _ rfl, heard_skipped.2.2.1 .skipped _ _ rfl,
      List.nil_append, List.append_nil]
  · exact absurd rfl hrows

lemma scanSource_query {q : Node} (scope : List String) (h : valuesOf (some q) = some []) :
    scanSource scope (some q) = scan (Reach.walked.into q) scope q := by
  cases q with
  | selectStmt s =>
    have hrows : s.valuesLists = [] := by simpa [valuesOf] using h
    rw [scanSource, if_pos hrows]
    rfl
  | _ => rfl

lemma heard_source_none {o : Option Node} (scope : List String) (h : valuesOf o = none) :
    heard (scanSource scope o) = [] := by
  cases o with
  | none => rfl
  | some q =>
    cases q with
    | selectStmt s => cases h
    | setOpStmt s => cases h
    | _ => exact heard_skipped.1 .skipped scope _ rfl

/-- What an INSERT takes its rows from: VALUES rows are looked through, a query is walked. A
sharded table takes VALUES only. -/
lemma tracks_source (s : InsertStmt Node) (r : Rel) (i : Nat) (scope : List String) : Tracks (Sim sess) (do
      if r.kind = .sharded then
        let terms ← insertTerms s r
        modify fun w => { w with terms := w.terms ++ terms.map fun t => (i, t) }
      else match s.selectStmt, valuesOf s.selectStmt with
        | some q, some [] => nestedStatement sess q
        | _, _ => pure ()
      exprs sess ((valuesOf s.selectStmt).getD [])
      exprs sess s.returningClause)
    (scanSource scope s.selectStmt ++ scans .visited scope s.returningClause) := by
  have hret : Tracks (Sim sess) (exprs sess s.returningClause) (scans .visited scope s.returningClause) :=
    sim_stepwise.exprs _ _
  have hrows : ∀ rows, valuesOf s.selectStmt = some rows → rows ≠ [] →
      Tracks (Sim sess) (exprs sess ((valuesOf s.selectStmt).getD [])) (scanSource scope s.selectStmt) := by
    intro rows hv hne
    obtain ⟨scope', heq⟩ := heard_source_values scope hv hne
    apply sim_stepwise.congr (sim_stepwise.exprs scope' _)
    rw [hv, Option.getD_some, heq]
  have hnone : Tracks (Sim sess) (exprs sess []) [] := by
    rw [exprs]
    exact Tracks.pure
  dsimp only
  split
  · apply Tracks.lift_then
    intro terms ht
    obtain ⟨rows, _, hv, hne, -⟩ := insertTerms_ok ht
    refine (Tracks.change fun _ _ hs => hs.same rfl rfl).quietly fun _ => ?_
    exact (hrows rows hv hne).seq fun _ => hret
  · split
    · next q ho hv =>
      rw [ho] at hv ⊢
      rw [scanSource_query scope hv, hv, Option.getD_some]
      apply (sim_stepwise.statement scope q).seq
      intro _
      exact hnone.quietly fun _ => hret
    · next hno =>
      cases hv : valuesOf s.selectStmt with
      | none =>
        rw [Option.getD_none]
        exact (sim_stepwise.congr hnone (heard_source_none scope hv).symm).seq fun _ => hret
      | some rows =>
        have hne : rows ≠ [] := by
          rintro rfl
          cases ho : s.selectStmt with
          | none => simp [ho, valuesOf] at hv
          | some q => exact hno q ho hv
        rw [← hv]
        exact (hrows rows hv hne).seq fun _ => hret

lemma tracks_walkInsert (s : InsertStmt Node) :
    Tracks (Sim sess) (walkInsert sess s) (scanStatement sess (.insertStmt s)) := by
  have htrack : Tracks (Sim sess) (walkInsert sess s)
      (scanWith .walked (itemScope s.withClause []) (ctesOf s.withClause) ++
        (written s.relation true ++ (scanSource (stmtScope s.withClause []) s.selectStmt ++
          scans .visited (stmtScope s.withClause []) s.returningClause))) := by
    apply (sim_stepwise.withClause _ _).seq
    intro _
    apply (tracks_addTarget _ _).seq
    intro r
    apply sim_stepwise.read_then
    intro w _
    exact tracks_source s r (w.rels.length - 1) _
  apply sim_stepwise.congr htrack
  simp [scanStatement, heard_skipped.2.2.1 .skipped _ s.conflictExprs rfl]

lemma tracks_joinedItems (items : List Node) (scope : List String) :
    Tracks (Sim sess) (joinedItems sess items) (scans .walked scope items) := by
  have hitems : Tracks (Sim sess) (fromItems sess items) (scans .walked scope items) := sim_stepwise.fromItems _ _
  unfold joinedItems
  dsimp only
  split
  · exact (sim_stepwise.blocker _).quietly fun _ => hitems
  · exact hitems

lemma tracks_walkUpdate (s : UpdateStmt Node) :
    Tracks (Sim sess) (walkUpdate sess s) (scanStatement sess (.updateStmt s)) := by
  have htrack : Tracks (Sim sess) (walkUpdate sess s)
      (scanWith .walked (itemScope s.withClause []) (ctesOf s.withClause) ++
        (written s.relation true ++ (scans .walked (stmtScope s.withClause []) s.fromClause ++
          (scan? .visited (stmtScope s.withClause []) s.whereClause ++
            (scans .visited (stmtScope s.withClause []) s.targetList ++
              scans .visited (stmtScope s.withClause []) s.returningClause))))) := by
    apply (sim_stepwise.withClause _ _).seq
    intro _
    apply sim_stepwise.read_then
    intro w _
    apply (tracks_addTarget _ _).seq
    intro r
    dsimp only
    split
    · exact Tracks.throw
    apply (tracks_joinedItems _ _).seq
    intro _
    apply Tracks.scoped (Nat.zero_le _)
    · exact fun w => (sim_stepwise.within _).whereClause _ _ fun _ _ h => h.2
    intro _
    exact (sim_stepwise.exprs _ _).seq fun _ => sim_stepwise.exprs _ _
  apply sim_stepwise.congr htrack
  simp [scanStatement]

lemma tracks_walkDelete (s : DeleteStmt Node) :
    Tracks (Sim sess) (walkDelete sess s) (scanStatement sess (.deleteStmt s)) := by
  have htrack : Tracks (Sim sess) (walkDelete sess s)
      (scanWith .walked (itemScope s.withClause []) (ctesOf s.withClause) ++
        (written s.relation true ++ (scans .walked (stmtScope s.withClause []) s.usingClause ++
          (scan? .visited (stmtScope s.withClause []) s.whereClause ++
            scans .visited (stmtScope s.withClause []) s.returningClause)))) := by
    apply (sim_stepwise.withClause _ _).seq
    intro _
    apply sim_stepwise.read_then
    intro w _
    apply (tracks_addTarget _ _).seq
    intro r
    apply (tracks_joinedItems _ _).seq
    intro _
    apply Tracks.scoped (Nat.zero_le _)
    · exact fun w => (sim_stepwise.within _).whereClause _ _ fun _ _ h => h.2
    exact fun _ => sim_stepwise.exprs _ _
  apply sim_stepwise.congr htrack
  simp [scanStatement]

variable {w : Walker} {node : Node} {passes : Passes} {p : Plan} {write : Bool} {stmt : String}
  {keys : Keys} {rv : RangeVar}

lemma Tracks.finalState {m : Walk Unit} {evs : List Event} (h : Tracks (Sim sess) m evs)
    (hw : walk.finalState m = .ok w) : Sim sess evs w := by
  obtain ⟨⟨_, w'⟩, hm, heq⟩ := bind_eq_ok hw
  cases heq
  exact h [] {} () w ⟨rfl, rfl, by simp⟩ hm

/-- The walk over a statement leaves the trace the scan of the statement tells. -/
lemma walk_sim (h : walk sess node = .ok w) : Sim sess (scanStatement sess node) w := by
  have hquery : ∀ q, (if nextvalName sess q ≠ "" then .ok {} else walk.finalState (selectStmt sess q))
      = Except.ok w → Sim sess (scan (if nextvalName sess q ≠ "" then .skipped else Reach.walked.into q)
        [] q) w := by
    intro q hq
    split at hq
    · next hn =>
      cases hq
      rw [if_pos hn]
      have hnil : Sim sess [] ({} : Walker) := ⟨rfl, rfl, by simp⟩
      exact hnil.congr (by rw [heard_skipped.1 .skipped [] q rfl, heard_nil])
    · next hn =>
      rw [if_neg hn]
      exact (sim_stepwise.selectStmt [] q).finalState hq
  unfold walk at h
  split at h
  · exact hquery _ h
  · exact hquery _ h
  · exact (tracks_walkInsert _).finalState h
  · exact (tracks_walkUpdate _).finalState h
  · exact (tracks_walkDelete _).finalState h
  · cases h

/-- The walk looks up the names it reaches, except those of WITH items passed before. -/
lemma lookedUp_eq (seen : List String) (evs : List Event) : lookedUp seen evs =
      ((mentionsFrom seen evs).filter fun n => n.reached && !n.taken).map (·.rv) := by
  induction evs generalizing seen with
  | nil => rfl
  | cons e evs ih =>
    cases e with
    | cte name => exact ih _
    | table rv shadowed reached =>
      rw [lookedUp, mentionsFrom, ih]
      cases reached <;> cases rv.isCte seen <;> simp

/-- The plans that go to the shards of sharded tables. -/
def Kind.overShards : Kind → Bool
  | .equalUnique | .isIn | .scatter => true
  | .unsharded | .reference | .sessionLocal => false

lemma scatterUnionAll_kind {passes : Passes} {w : Walker} {top : SetOpStmt Node} {p : Plan}
    (h : scatterUnionAll passes sess w top = .ok p) : p.kind = .scatter := by
  unfold scatterUnionAll at h
  dsimp only at h
  split at h
  · cases h
  split at h
  · cases h
  split at h
  · cases h
  split at h
  · cases h
  obtain ⟨arms, _, h⟩ := bind_eq_ok h
  obtain ⟨_, _, h⟩ := bind_eq_ok h
  obtain ⟨_, _, h⟩ := bind_eq_ok h
  cases h
  rfl

lemma scatter_kind (h : scatter passes sess w write stmt = .ok p) : p.kind = .scatter := by
  unfold scatter at h
  dsimp only at h
  split at h
  · cases h
  split at h
  · exact scatterUnionAll_kind h
  split at h
  · cases h
  obtain ⟨_, _, h⟩ := bind_eq_ok h
  cases h
  rfl

lemma finish_kind {home : Nat} {p' : Plan} {values : List (List Key.Value)}
    (h : p.finish keys home values = .ok p') : p'.kind = p.kind := by
  unfold Plan.finish at h
  obtain ⟨each, _, h⟩ := bind_eq_ok h
  obtain ⟨shards, _, h⟩ := bind_eq_ok h
  dsimp only at h
  split at h
  · cases h
  · cases h
    rfl

lemma keyedKind_overShards (terms : List PlanTerm) : (keyedKind terms).overShards = true := by
  unfold keyedKind
  split <;> rfl

lemma referenceWrite_others {root : Node} {t : Rel} {others : Nat}
    (h : referenceWrite passes sess root t others = .ok p) : others = 0 := by
  unfold referenceWrite at h
  dsimp only at h
  split at h
  · cases h
  · omega

/-- A statement with a sharded relation is keyed or scattered. -/
lemma decideRels_sharded {multiRow : Bool} (hcount : w.count .sharded ≠ 0)
    (h : decideRels passes keys sess stmt write w multiRow = .ok p) : p.kind.overShards = true := by
  unfold decideRels at h
  rw [if_neg hcount] at h
  split at h
  · rw [scatter_kind h]
    rfl
  · dsimp only at h
    split at h
    · cases h
      exact keyedKind_overShards _
    · rw [finish_kind h]
      exact keyedKind_overShards _

lemma decide_sharded {root : Node} {multiRow : Bool} {r : Rel}
    (h : decide passes keys sess root stmt write w multiRow = .ok p) (hr : r ∈ w.rels)
    (hk : r.kind = .sharded) : p.kind.overShards = true := by
  have hcount : w.count .sharded ≠ 0 := by
    intro hzero
    have hmem : r ∈ w.rels.filter (·.kind = .sharded) := by simp [hr, hk]
    rw [List.length_eq_zero_iff.mp hzero] at hmem
    cases hmem
  unfold decide at h
  split at h
  · split at h
    · have := referenceWrite_others h
      omega
    · exact decideRels_sharded hcount h
  · exact decideRels_sharded hcount h

lemma walk_nextval (hn : nextvalName sess node ≠ "") (h : walk sess node = .ok w) : w.rels = [] := by
  cases node with
  | selectStmt s =>
    rw [walk, if_pos hn] at h
    cases h
    rfl
  | _ => exact absurd rfl hn

/-- The relations the walk over an accepted statement finds: a sharded one shows in the kind
of the plan. -/
def Shows (sess : Session) (node : Node) (p : Plan) : Prop :=
  ∃ w, walk sess node = .ok w ∧ ∀ r ∈ w.rels, r.kind = .sharded → p.kind.overShards = true

lemma planSelect_sharded (h : planSelect passes keys sess node = .ok p) : Shows sess node p := by
  obtain ⟨w, hw, h⟩ := bind_eq_ok h
  refine ⟨w, hw, ?_⟩
  intro r hr hk
  split at h
  · next hn =>
    rw [walk_nextval hn hw] at hr
    cases hr
  · exact decide_sharded h hr hk

lemma onHome_select {x : Except Refusal Plan} (h : x >>= onHome = .ok p) : ∃ p', x = .ok p' ∧ p.kind = p'.kind := by
  obtain ⟨p', hp', h⟩ := bind_eq_ok h
  unfold onHome at h
  split at h
  · cases h
  · cases h
    exact ⟨p', hp', rfl⟩

lemma derived_select (h : derived passes keys sess rv node = .ok p) :
    ∃ p', planSelect passes keys sess node = .ok p' ∧ p.kind = p'.kind := by
  unfold derived at h
  split at h
  · cases h
  · split at h
    · cases h
    · exact onHome_select h
  · exact onHome_select h

lemma plan_walk (h : plan passes keys sess node = .ok p) : Shows sess node p := by
  have hderived : ∀ rv, derived passes keys sess rv node = .ok p → Shows sess node p := by
    intro rv h
    obtain ⟨p', h', hkind⟩ := derived_select h
    unfold Shows
    rw [hkind]
    exact planSelect_sharded h'
  have hwrite : ∀ stmt rows, planWrite passes keys sess node stmt rows = .ok p →
      Shows sess node p := by
    intro stmt rows h
    obtain ⟨w, hw, h⟩ := bind_eq_ok h
    exact ⟨w, hw, fun r hr hk => decide_sharded h hr hk⟩
  unfold plan at h
  split at h
  · split at h
    · exact hderived _ h
    · exact planSelect_sharded h
  · split at h
    · exact hderived _ h
    · exact planSelect_sharded h
  · exact hwrite _ _ h
  · exact hwrite _ _ h
  · exact hwrite _ _ h
  · cases h

/-- The relations of the walk are all the tables the statement reads or writes, and a sharded
one among them shows in the plan. -/
def Complete (sess : Session) (node : Node) (w : Walker) (p : Plan) : Prop :=
  (∀ rv ∈ catalogRefs sess node, ∃ r ∈ w.rels, r.mention = rv ∧ lookupTable sess rv = .ok r) ∧
  ∀ rv ∈ catalogRefs sess node, ∀ r, lookupTable sess rv = .ok r → r.kind = .sharded → p.kind.overShards = true

lemma mem_catalogRefs : rv ∈ catalogRefs sess node ↔ ∃ n ∈ mentions sess node, n.shadowed = false ∧ n.rv = rv := by
  simp [catalogRefs, and_assoc]

/-- The mentions behind the relations of the walk. -/
lemma mem_rels_mention (h : walk sess node = .ok w) : (∃ r ∈ w.rels, r.mention = rv) ↔
      ∃ n ∈ mentions sess node, n.reached = true ∧ n.taken = false ∧ n.rv = rv := by
  have hrels := (walk_sim h).rels
  rw [lookedUp_eq] at hrels
  have hmem : (∃ r ∈ w.rels, r.mention = rv) ↔ rv ∈ w.rels.map (·.mention) := by simp
  rw [hmem, hrels]
  simp [mentions, and_assoc]

lemma complete_of_covered (hw : walk sess node = .ok w)
    (hp : ∀ r ∈ w.rels, r.kind = .sharded → p.kind.overShards = true) (hc : Covered sess node) :
    Complete sess node w p := by
  have hfound : ∀ rv ∈ catalogRefs sess node,
      ∃ r ∈ w.rels, r.mention = rv ∧ lookupTable sess rv = .ok r := by
    intro rv hrv
    obtain ⟨n, hn, hshadow, rfl⟩ := mem_catalogRefs.mp hrv
    obtain ⟨hreach, htaken⟩ := hc n hn hshadow
    obtain ⟨r, hr, hm⟩ := (mem_rels_mention hw).mpr ⟨n, hn, hreach, htaken, rfl⟩
    have := (walk_sim hw).found r hr
    rw [hm] at this
    exact ⟨r, hr, hm, this⟩
  refine ⟨hfound, ?_⟩
  intro rv hrv r hr hk
  obtain ⟨r', hr', _, hlook⟩ := hfound rv hrv
  rw [hr] at hlook
  cases hlook
  exact hp r hr' hk

lemma covered_of_complete (hw : walk sess node = .ok w)
    (hdistinct : ((mentions sess node).map (·.rv)).Nodup) (hc : Complete sess node w p) : Covered sess node := by
  intro n hn hshadow
  obtain ⟨r, hr, hm, _⟩ := hc.1 n.rv (mem_catalogRefs.mpr ⟨n, hn, hshadow, rfl⟩)
  obtain ⟨n', hn', hreach, htaken, hsame⟩ := (mem_rels_mention hw).mp ⟨r, hr, hm⟩
  rw [List.inj_on_of_nodup_map hdistinct hn' hn hsame] at hreach htaken
  exact ⟨hreach, htaken⟩

/-- A plan knows of every table the statement reads or writes when each name stands where the
walk looks and no WITH item of that name came before; and, two names of one statement being
two places in its text, only then. -/
theorem plan_complete_iff (passes : Passes) (keys : Keys) (sess : Session) (node : Node) (p : Plan)
    (h : plan passes keys sess node = .ok p) :
    ∃ w, walk sess node = .ok w ∧ (Covered sess node → Complete sess node w p) ∧
      (((mentions sess node).map (·.rv)).Nodup → Complete sess node w p → Covered sess node) := by
  obtain ⟨w, hw, hp⟩ := plan_walk h
  exact ⟨w, hw, complete_of_covered hw hp, covered_of_complete hw⟩

instance (sess : Session) (node : Node) : Decidable (Covered sess node) :=
  inferInstanceAs (Decidable (∀ n ∈ mentions sess node, n.shadowed = false → n.reached = true ∧ n.taken = false))

/-- Two sharded tables and one that lives on the home shard, in a database of two shards. -/
def shopCatalog : Snapshot where
  tables key :=
    if key.tableName = "orders" ∨ key.tableName = "items" then
      some { placement := .sharded, shardKey := "tenant_id", shardKeyType := "bigint", shardKeyChecked := true }
    else if key.tableName = "settings" then some { placement := .unsharded }
    else none
  shardIDs := [0, 1]

def shop : Session := { database := "shop", searchPath := ["public"], snapshot := some shopCatalog }

/-- Passes that refuse nothing, and keys that all live on shard 1. -/
def acceptAll : Passes := ⟨fun _ _ _ _ => .ok (), fun _ => .ok (), fun _ => .ok (), fun _ => .ok ()⟩

def oneShard : Keys := ⟨fun _ => .ok 1, fun _ _ _ => .ok (.int 0)⟩

/-- The condition `tenant_id = 5`. -/
def tenantFive : Node := .aExpr .op ["="] (some (.columnRef [.name "tenant_id"])) (some (.aConst (.ival 5)))

/-- `SELECT * FROM orders WHERE tenant_id = 5 AND EXISTS (SELECT FROM items WHERE tenant_id = 5)` -/
def ordersWithItems : Node := .selectStmt {
  targetList := [.resTarget "" (some (.columnRef [.star]))]
  fromClause := [.rangeVar { relname := "orders", location := 14 }]
  whereClause := some (.boolExpr .and [tenantFive, .subLink none (.selectStmt {
    fromClause := [.rangeVar { relname := "items", location := 64 }]
    whereClause := some tenantFive })]) }

/-- `SELECT * FROM settings ORDER BY (SELECT max(x) FROM orders)` -/
def settingsByOrders : Node := .selectStmt {
  targetList := [.resTarget "" (some (.columnRef [.star]))]
  fromClause := [.rangeVar { relname := "settings", location := 14 }]
  sortClause := [.subLink none (.selectStmt {
    targetList := [.resTarget "" (some (.funcCall ["max"] false [.columnRef [.name "x"]]))]
    fromClause := [.rangeVar { relname := "orders", location := 53 }] })] }

lemma exists_ok {ε α β : Type} {x : Except ε α} {f : α → β} {b : β}
    (h : x.toOption.map f = some b) : ∃ a, x = .ok a ∧ f a = b := by
  cases x with
  | error e => cases h
  | ok a => exact ⟨a, rfl, Option.some.inj h⟩

theorem plan_complete_exists : ∃ p w, plan acceptAll oneShard shop ordersWithItems = .ok p ∧
      walk shop ordersWithItems = .ok w ∧ Complete shop ordersWithItems w p := by
  obtain ⟨p, hp, _⟩ := exists_ok (f := Plan.kind) (b := .equalUnique)
    (x := plan acceptAll oneShard shop ordersWithItems) (by decide +kernel)
  obtain ⟨w, hw, hc, _⟩ := plan_complete_iff acceptAll oneShard shop ordersWithItems p hp
  exact ⟨p, w, hp, hw, hc (by decide +kernel)⟩

/-- A sharded table that only an ORDER BY reads: the plan is one of the home shard alone. -/
theorem plan_misses_orderBy : ∃ p w r, plan acceptAll oneShard shop settingsByOrders = .ok p ∧ p.kind = .unsharded ∧
      walk shop settingsByOrders = .ok w ∧ w.rels.map (·.name) = ["settings"] ∧
      r.mention ∈ catalogRefs shop settingsByOrders ∧ lookupTable shop r.mention = .ok r ∧
      r.name = "orders" ∧ r.kind = .sharded := by
  obtain ⟨p, hp, hkind⟩ := exists_ok (f := Plan.kind) (b := .unsharded)
    (x := plan acceptAll oneShard shop settingsByOrders) (by decide +kernel)
  obtain ⟨w, hw, hrels⟩ := exists_ok (f := fun w : Walker => w.rels.map (·.name)) (b := ["settings"])
    (x := walk shop settingsByOrders) (by decide +kernel)
  obtain ⟨r, hr, hprops⟩ := exists_ok (x := lookupTable shop { relname := "orders", location := 53 })
    (f := fun r => (r.mention, r.name, r.kind))
    (b := ({ relname := "orders", location := 53 }, "orders", .sharded)) (by decide +kernel)
  simp only [Prod.mk.injEq] at hprops
  obtain ⟨hm, hname, hk⟩ := hprops
  refine ⟨p, w, r, hp, hkind, hw, hrels, ?_, ?_, hname, hk⟩
  · rw [hm]
    decide +kernel
  · rw [hm]
    exact hr

-- WITH orders AS (SELECT * FROM orders) SELECT * FROM orders: the item's own body is taken for
-- the item
example : ((plan acceptAll oneShard shop (.selectStmt {
    withClause := some { ctes := [.commonTableExpr "orders" [] (.selectStmt {
      targetList := [.resTarget "" (some (.columnRef [.star]))]
      fromClause := [.rangeVar { relname := "orders", location := 30 }] })] }
    targetList := [.resTarget "" (some (.columnRef [.star]))]
    fromClause := [.rangeVar { relname := "orders", location := 52 }] })).toOption.map Plan.kind) =
    some .unsharded := by decide +kernel

end PgShard.Planner
