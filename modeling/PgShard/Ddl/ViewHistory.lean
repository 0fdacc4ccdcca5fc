import PgShard.Ddl.Projection
import PgShard.Ddl.ViewRecord

/-!
# View records over histories of statements

PostgreSQL knows a view by what it is, through renames and cascades; the catalog knows it by the
rows that one statement after another left. The two agree along a history of statements of the
kinds that tell the catalog everything they do.
-/

namespace PgShard.Ddl

open Hoare Planner

/-! ### What PostgreSQL does with a statement -/

/-- A view on the shards: the relations it reads, its columns, and whether it was made on the home
shard alone, as one of a local schema. -/
structure PgView where
  reads : List QName
  columns : List (String × Denoted)
  home : Bool

inductive Relation where
  | table (columns : List String) (sharded : Bool)
  | view (v : PgView)

structure World where
  schemas : List String
  find : QName → Option Relation

namespace World

def schemasOf (path : List String) (rv : RangeVar) : List String :=
  if rv.schemaname = "" then path else [rv.schemaname]

/-- The relation a name means. -/
def visible (w : World) (path : List String) (rv : RangeVar) : Option QName :=
  ((schemasOf path rv).find? fun s => (w.find ⟨s, rv.relname⟩).isSome).map (⟨·, rv.relname⟩)

/-- Where a CREATE puts a name. -/
def creation (w : World) (path : List String) (rv : RangeVar) : Option QName :=
  ((schemasOf path rv).find? w.schemas.contains).map (⟨·, rv.relname⟩)

def columnsOf (w : World) (q : Option QName) : List String :=
  match q.bind w.find with
  | some (.table columns _) => columns
  | some (.view v) => v.columns.map Prod.fst
  | none => []

/-- The columns of a view that lists columns of one relation are those of `viewColumns`; what
PostgreSQL makes of any other query is `other`. -/
def madeColumns (other : ViewStmt → List (String × Denoted)) (w : World) (path : List String)
    (v : ViewStmt) : List (String × Denoted) :=
  match v.query with
  | .selectStmt s =>
    match s.fromClause with
    | [.rangeVar rv] =>
      if (columnMap [] s.targetList).isSome then viewColumns v s rv (w.columnsOf (w.visible path rv))
      else other v
    | _ => other v
  | _ => other v

def put (w : World) (q : QName) (r : Relation) : World := { w with find := fun x => if x = q then some r else w.find x }

/-- A sharded table, or a view that reads one, itself or through other views. -/
inductive OverSharded (w : World) : QName → Prop
  | table {q : QName} {columns : List String} : w.find q = some (.table columns true) → OverSharded w q
  | view {q base : QName} {v : PgView} :
      w.find q = some (.view v) → base ∈ v.reads → OverSharded w base → OverSharded w q

/-- What goes with a DROP of `target`: the views that read what goes. -/
inductive Falls (w : World) (target : QName → Prop) : QName → Prop
  | named {q : QName} : target q → Falls w target q
  | reader {q base : QName} {v : PgView} :
      w.find q = some (.view v) → base ∈ v.reads → Falls w target base → Falls w target q

/-- The relations after a DROP of `target`. -/
structure Drops (w w' : World) (target : QName → Prop) : Prop where
  gone : ∀ q, Falls w target q → w'.find q = none
  kept : ∀ q, ¬Falls w target q → w'.find q = w.find q

def Named (w : World) (path : List String) (objects : List RangeVar) (q : QName) : Prop :=
  ∃ rv ∈ objects, w.visible path rv = some q

def InSchemas (w : World) (names : List String) (q : QName) : Prop := q.schema ∈ names ∧ (w.find q).isSome = true

end World

def PgView.move (f : QName → QName) (v : PgView) : PgView := { v with reads := v.reads.map f }

def Relation.move (f : QName → QName) : Relation → Relation
  | .view v => .view (v.move f)
  | r => r

/-- Names change, and every view follows what it reads. -/
def World.Moves (w w' : World) (f : QName → QName) : Prop :=
  ∀ y r', w'.find y = some r' ↔ ∃ x r, w.find x = some r ∧ f x = y ∧ r.move f = r'

/-- A column of `q` takes another name: in `q` itself, and where a view projects it. -/
def Relation.renameColumn (q : QName) (old new : String) (x : QName) : Relation → Relation
  | .view v => .view { v with columns := v.columns.map fun c =>
      (if x = q ∧ c.1 = old then new else c.1, if v.reads = [q] ∧ c.2 = .column old then .column new else c.2) }
  | r => r

section

variable (other : ViewStmt → List (String × Denoted)) (passes : Passes) (keys : Keys)

/-- A statement that completes, with names resolved through `path`, takes `w` to `w'`. -/
def Completes (sess : Session) (path : List String) (w w' : World) : ViewDdl → Prop
  | .create v replace => ∃ q reads, v.view.relname ≠ "" ∧ w.creation path v.view = some q ∧
      (catalogRefs sess v.query).mapM (w.visible path) = some reads ∧
      (w.find q = none ∨ replace = true ∧ ∃ u, w.find q = some (.view u)) ∧
      w' = w.put q (.view ⟨reads, w.madeColumns other path v, homeOnly sess v.view⟩)
  | .dropTable objects cascade missingOk =>
      (∀ rv ∈ objects, rv.relname ≠ "" ∧ match w.visible path rv with
        | some q => ∃ columns sharded, w.find q = some (.table columns sharded)
        | none => missingOk = true) ∧
      (cascade = false → ∀ q, w.Falls (w.Named path objects) q → w.Named path objects q) ∧
      w.Drops w' (w.Named path objects) ∧ w'.schemas = w.schemas
  | .dropView objects cascade missingOk =>
      (∀ rv ∈ objects, rv.relname ≠ "" ∧ match w.visible path rv with
        | some q => ∃ v, w.find q = some (.view v)
        | none => missingOk = true) ∧
      (cascade = false → ∀ q, w.Falls (w.Named path objects) q → w.Named path objects q) ∧
      w.Drops w' (w.Named path objects) ∧ w'.schemas = w.schemas
  | .dropSchema names cascade missingOk =>
      (∀ name ∈ names, name ≠ "" ∧ (name ∈ w.schemas ∨ missingOk = true)) ∧
      (cascade = false → ∀ q, ¬w.InSchemas names q) ∧
      w.Drops w' (w.InSchemas names) ∧ w'.schemas = w.schemas.filter (! names.contains ·)
  | .renameView relation newname => ∃ q v, w.visible path relation = some q ∧ w.find q = some (.view v) ∧
      w.find ⟨q.schema, newname⟩ = none ∧
      w.Moves w' (fun x => if x = q then ⟨q.schema, newname⟩ else x) ∧ w'.schemas = w.schemas
  | .setSchema relation newschema => ∃ q v, w.visible path relation = some q ∧ w.find q = some (.view v) ∧
      newschema ∈ w.schemas ∧ w.find ⟨newschema, q.name⟩ = none ∧
      w.Moves w' (fun x => if x = q then ⟨newschema, q.name⟩ else x) ∧ w'.schemas = w.schemas
  | .renameSchema subname newname =>
      subname ∈ w.schemas ∧ newname ∉ w.schemas ∧
      w.Moves w' (fun x => if x.schema = subname then ⟨newname, x.name⟩ else x) ∧
      w'.schemas = w.schemas.map fun s => if s = subname then newname else s
  | .renameColumn relation subname newname => ∃ q v, w.visible path relation = some q ∧ w.find q = some (.view v) ∧
      subname ∈ v.columns.map Prod.fst ∧ newname ∉ v.columns.map Prod.fst ∧
      w' = { w with find := fun x => (w.find x).map (·.renameColumn q subname newname x) }

/-- One statement of a session, with the search path its names are resolved through. -/
structure ViewStep where
  sess : Session
  path : List String
  stmt : ViewDdl

/-- Histories of statements the planner accepts and that complete, each of them `allowed` where it
runs, with the rows they leave. -/
inductive ViewRun (allowed : ViewStep → World → Prop) (w : World) (rows : ViewRows) : World → ViewRows → Prop
  | start : ViewRun allowed w rows w rows
  | next {w₁ w₂ : World} {rows₁ : ViewRows} {step : ViewStep} {change : Option ViewChange} :
      ViewRun allowed w rows w₁ rows₁ → allowed step w₁ →
      recordedChange passes keys step.sess step.stmt = .ok change →
      Completes other step.sess step.path w₁ w₂ step.stmt →
      ViewRun allowed w rows w₂ (viewMirror rows₁ change)

end

/-- A row says of a view what it is. -/
structure Describes (r : ViewRow) (v : PgView) : Prop where
  base : v.reads = [⟨r.baseSchema, r.baseName⟩]
  columns : ∀ name d, (name, d) ∈ v.columns ↔ ∃ base, d = .column base ∧ r.columns.lookup name = some base

/-- Every row names a view that exists, and every view over a sharded table has its row. -/
structure Agrees (rows : ViewRows) (w : World) : Prop where
  exist : ∀ q r, rows q = some r → ∃ v, w.find q = some (.view v)
  recorded : ∀ q v, w.find q = some (.view v) → w.OverSharded q → ∃ r, rows q = some r ∧ r.simple = true ∧ Describes r v

/-- The invariant behind it: the rows are those of the views made by migrations, and a row with a
column map describes its view whatever it is over. -/
structure Kept (rows : ViewRows) (w : World) : Prop where
  made : ∀ q, (rows q).isSome = true ↔ ∃ v, w.find q = some (.view v) ∧ v.home = false
  described : ∀ q r v, rows q = some r → w.find q = some (.view v) → r.simple = true → Describes r v
  baseless : ∀ q r, rows q = some r → r.simple = false → r.baseName = ""
  routable : ∀ q v, w.find q = some (.view v) → w.OverSharded q → ∃ r, rows q = some r ∧ r.simple = true

lemma Kept.agrees {rows : ViewRows} {w : World} (h : Kept rows w) : Agrees rows w where
  exist q r hr := by
    obtain ⟨v, hv, _⟩ := (h.made q).mp (by rw [hr]; rfl)
    exact ⟨v, hv⟩
  recorded q v hv hover := by
    obtain ⟨r, hr, hsimple⟩ := h.routable q v hv hover
    exact ⟨r, hr, hsimple, h.described q r v hr hv hsimple⟩

lemma Kept.empty {w : World} (h : ∀ q v, w.find q ≠ some (.view v)) : Kept (fun _ => none) w where
  made q := by simp [h]
  described _ _ _ hr := by cases hr
  baseless _ _ hr := by cases hr
  routable q v hv := absurd hv (h q v)

/-! ### What the statements that agree have in common -/

/-- A CREATE VIEW the row of which is right: it is named with its schema or goes to public, gives
its columns no names after its own, spells its columns as the table does, and the catalog knows what
its names mean. -/
structure Traceable (sess : Session) (path : List String) (w : World) (v : ViewStmt) : Prop where
  shared : sess.localOnly = false
  target : w.creation path v.view = some ⟨orPublic v.view.schemaname, v.view.relname⟩
  noAliases : v.aliases = []
  spelled : ∀ s rv, v.query = .selectStmt s → s.fromClause = [.rangeVar rv] →
    Spelled v (w.columnsOf (w.visible path rv))
  covered : Covered sess v.query
  resolved : ∀ rv ∈ catalogRefs sess v.query, ∀ r, lookupTable sess rv = .ok r →
    w.visible path rv = some ⟨r.schema, r.name⟩ ∧ (w.OverSharded ⟨r.schema, r.name⟩ → r.kind = .sharded)
  /-- A view it replaces is read by no other, and is one of a local schema as it is, or not. -/
  fresh : ∀ q, w.creation path v.view = some q → (∀ x u, w.find x = some (.view u) → q ∉ u.reads) ∧
    (∀ rv ∈ catalogRefs sess v.query, w.visible path rv ≠ some q) ∧
    ∀ u, w.find q = some (.view u) → u.home = homeOnly sess v.view

/-- No view with a row goes with a DROP of `target`. -/
def Silent (w : World) (target : QName → Prop) : Prop :=
  ∀ q v, w.Falls target q → w.find q = some (.view v) → v.home = true

/-- The statements that tell the catalog all they do. -/
def Told (step : ViewStep) (w : World) : Prop :=
  match step.stmt with
  | .create v _ => Traceable step.sess step.path w v
  | .dropTable objects cascade _ =>
    cascade = false ∨
    -- nothing is recorded, and nothing has to be
    ((step.stmt.homeOnly step.sess = true ∨ objects.length ≠ 1) ∧ Silent w (w.Named step.path objects)) ∨
    -- one sharded table, under the name the planner found, and no views of views over it
    (step.stmt.homeOnly step.sess = false ∧ ∃ rv q columns, objects = [rv] ∧
      w.visible step.path rv = some q ∧ w.find q = some (.table columns true) ∧
      (rv.schemaname = "" → ∀ r, lookupTable step.sess rv = .ok r → orPublic r.schema = q.schema) ∧
      ∀ x y u u', w.find x = some (.view u) → q ∈ u.reads → w.find y = some (.view u') → x ∉ u'.reads)
  | .dropView objects _ _ =>
    ((step.stmt.homeOnly step.sess = true ∨ objects.length ≠ 1) ∧ Silent w (w.Named step.path objects)) ∨
    (step.stmt.homeOnly step.sess = false ∧ ∃ rv, objects = [rv] ∧
      w.visible step.path rv = w.visible [] { rv with schemaname := orPublic rv.schemaname } ∧
      ∀ q x u, w.visible step.path rv = some q → w.find x = some (.view u) → q ∉ u.reads)
  | .dropSchema names cascade _ =>
    cascade = false ∨
    ((step.stmt.homeOnly step.sess = true ∨ names.length ≠ 1) ∧ Silent w (w.InSchemas names)) ∨
    -- no view elsewhere reads anything in it
    (step.stmt.homeOnly step.sess = false ∧ ∃ name, names = [name] ∧
      ∀ q v, w.Falls (w.InSchemas names) q → w.find q = some (.view v) → v.home = true ∨ q.schema = name)
  | .renameSchema subname _ =>
    (∀ q, q.schema = subname → w.find q = none) ∧
    ∀ x u, w.find x = some (.view u) → ∀ q ∈ u.reads, q.schema ≠ subname
  | .renameView _ _ | .setSchema _ _ | .renameColumn _ _ _ => False

section

variable {rows rows' : ViewRows} {w w' : World}

variable {target : QName → Prop} {q : QName} {sess : Session} {d : ViewDdl}
  {change : Option ViewChange} {objects : List RangeVar} {path : List String} {rv : RangeVar}
  {cascade missingOk : Bool} {wk : Walker} {r : Rel} {v : ViewStmt} {reads : List QName}
  {passes : Passes} {keys : Keys} {other : ViewStmt → List (String × Denoted)}

lemma World.Drops.find_iff {x : QName} {r : Relation} (hdrop : w.Drops w' target) :
    w'.find x = some r ↔ w.find x = some r ∧ ¬w.Falls target x := by
  by_cases hf : w.Falls target x
  · simp [hdrop.gone x hf, hf]
  · simp [hdrop.kept x hf, hf]

lemma OverSharded.of_kept (hdrop : w.Drops w' target) (h : w'.OverSharded q) : w.OverSharded q := by
  induction h with
  | table ht => exact .table (hdrop.find_iff.mp ht).1
  | view hv hbase _ ih => exact .view (hdrop.find_iff.mp hv).1 hbase ih

lemma Kept.view {row : ViewRow} (h : Kept rows w) (hrow : rows q = some row) :
    ∃ v, w.find q = some (.view v) ∧ v.home = false :=
  (h.made q).mp (by rw [hrow]; rfl)

/-- A drop keeps agreement when the rows that go are those of the views that go. -/
lemma Kept.drop (h : Kept rows w) (hdrop : w.Drops w' target) (gone : QName → ViewRow → Prop)
    (hrows : ∀ q r, rows' q = some r ↔ rows q = some r ∧ ¬gone q r)
    (hgone : ∀ q r v, rows q = some r → w.find q = some (.view v) → v.home = false →
      (gone q r ↔ w.Falls target q)) : Kept rows' w' := by
  have hrow : ∀ q r, rows' q = some r ↔ rows q = some r ∧ ¬w.Falls target q := by
    intro q r
    rw [hrows]
    refine and_congr_right fun hr => ?_
    obtain ⟨v, hv, hhome⟩ := h.view hr
    rw [hgone q r v hr hv hhome]
  constructor
  · intro q
    simp only [Option.isSome_iff_exists, hrow, exists_and_right, hdrop.find_iff]
    rw [← Option.isSome_iff_exists, h.made]
    simp only [← exists_and_right, and_right_comm]
  · intro q r v hr hv
    exact h.described q r v ((hrow q r).mp hr).1 (hdrop.find_iff.mp hv).1
  · intro q r hr
    exact h.baseless q r ((hrow q r).mp hr).1
  · intro q v hv hover
    obtain ⟨hv, hf⟩ := hdrop.find_iff.mp hv
    obtain ⟨r, hr, hsimple⟩ := h.routable q v hv (OverSharded.of_kept hdrop hover)
    exact ⟨r, (hrow q r).mpr ⟨hr, hf⟩, hsimple⟩

lemma Kept.drop_silent (h : Kept rows w) (hdrop : w.Drops w' target) (hsilent : Silent w target) : Kept rows w' := by
  refine h.drop hdrop (fun _ _ => False) (by simp) fun q r v _ hv hhome => ⟨nofun, fun hf => ?_⟩
  rw [hsilent q v hf hv] at hhome
  cases hhome

lemma not_falls (h : ∀ q, ¬target q) : ¬w.Falls target q := by
  intro hf
  induction hf with
  | named hq => exact h _ hq
  | reader _ _ _ ih => exact ih

lemma attached_ok (hd : ∀ v replace, d ≠ .create v replace) (h : recordedChange passes keys sess d = .ok change) :
    ∃ c, attached sess d = .ok c ∧ change = if d.homeOnly sess then none else c := by
  unfold recordedChange at h
  split at h
  · exact absurd rfl (hd _ _)
  · obtain ⟨c, hc, rfl⟩ := map_eq_ok h
    exact ⟨c, hc, rfl⟩

/-- Nothing is recorded for a statement of the home shard, or when nothing is attached. -/
lemma recorded_none (hd : ∀ v replace, d ≠ .create v replace) (h : recordedChange passes keys sess d = .ok change)
    (hnone : d.homeOnly sess = true ∨ attached sess d = .ok none) : change = none := by
  obtain ⟨c, hc, rfl⟩ := attached_ok hd h
  rcases hnone with hhome | hnone
  · exact if_pos hhome
  · rw [hnone] at hc
    cases hc
    exact ite_self _

lemma recorded_attached (hd : ∀ v replace, d ≠ .create v replace)
    (h : recordedChange passes keys sess d = .ok change) (hhome : d.homeOnly sess = false) :
    attached sess d = .ok change := by
  obtain ⟨c, hc, rfl⟩ := attached_ok hd h
  rw [hc, if_neg (by simp [hhome])]

lemma schemasOf_qualified (h : rv.schemaname ≠ "") : World.schemasOf path rv = [rv.schemaname] := if_neg h

lemma visible_some (h : w.visible path rv = some q) :
    q.name = rv.relname ∧ (rv.schemaname ≠ "" → q.schema = rv.schemaname) := by
  unfold World.visible at h
  obtain ⟨s, hs, rfl⟩ := Option.map_eq_some_iff.mp h
  refine ⟨rfl, fun hq => ?_⟩
  rw [schemasOf_qualified hq] at hs
  simpa using List.mem_of_find?_eq_some hs

lemma orPublic_ne (schema : String) : orPublic schema ≠ "" := by
  unfold orPublic
  split <;> simp_all

/-- A relation is what its qualified name means. -/
lemma visible_public (h : (w.find ⟨orPublic rv.schemaname, rv.relname⟩).isSome = true) :
    w.visible [] { rv with schemaname := orPublic rv.schemaname } =
      some ⟨orPublic rv.schemaname, rv.relname⟩ := by
  have hs : World.schemasOf [] { rv with schemaname := orPublic rv.schemaname } =
      [orPublic rv.schemaname] := schemasOf_qualified (orPublic_ne _)
  simp [World.visible, hs, h]

lemma Kept.dropView (h : Kept rows w) (htold : Told ⟨sess, path, .dropView objects cascade missingOk⟩ w)
    (hrec : recordedChange passes keys sess (.dropView objects cascade missingOk) = .ok change)
    (hnames : ∀ rv ∈ objects, rv.relname ≠ "") (hdrop : w.Drops w' (w.Named path objects)) :
    Kept (viewMirror rows change) w' := by
  rcases htold with ⟨hwhere, hsilent⟩ | ⟨hhome, rv, rfl, hvis, hunread⟩
  · rw [recorded_none (by nofun) hrec (hwhere.imp_right fun hlen => by unfold attached; split <;> simp_all)]
    exact h.drop_silent hdrop hsilent
  · dsimp only at hhome hvis hunread
    cases recorded_attached (by nofun) hrec hhome
    have hname := hnames rv List.mem_cons_self
    refine h.drop hdrop (fun q _ => q = ⟨orPublic rv.schemaname, rv.relname⟩)
      (fun q r => by simp [viewMirror, hname, and_comm]) fun q _ v _ hv _ => ⟨?_, fun hf => ?_⟩
    · rintro rfl
      exact .named ⟨rv, List.mem_cons_self, hvis.trans (visible_public (by rw [hv]; rfl))⟩
    · have hq : w.visible path rv = some q := by
        clear * - hf hunread
        induction hf with
        | named hx => simpa [World.Named] using hx
        | reader hv hbase _ ih => exact absurd hbase (hunread _ _ _ ih hv)
      obtain ⟨hqname, hqschema⟩ := visible_some (hvis.symm.trans hq)
      cases q
      simp_all [orPublic_ne]

lemma Kept.dropSchema {names : List String} (h : Kept rows w)
    (htold : Told ⟨sess, path, .dropSchema names cascade missingOk⟩ w)
    (hrec : recordedChange passes keys sess (.dropSchema names cascade missingOk) = .ok change)
    (hnames : ∀ name ∈ names, name ≠ "") (hempty : cascade = false → ∀ q, ¬w.InSchemas names q)
    (hdrop : w.Drops w' (w.InSchemas names)) : Kept (viewMirror rows change) w' := by
  -- without CASCADE nothing falls
  have hfell : ∀ q v, w.Falls (w.InSchemas names) q → w.find q = some (.view v) → v.home = true ∨
      ViewDdl.homeOnly sess (.dropSchema names cascade missingOk) = false ∧ names = [q.schema] := by
    intro q v hf hv
    rcases htold with hrestrict | ⟨_, hsilent⟩ | ⟨hhome, name, hone, hfalls⟩
    · exact absurd hf (not_falls (hempty hrestrict))
    · exact .inl (hsilent q v hf hv)
    · exact (hfalls q v hf hv).imp_right fun hq => ⟨hhome, by rw [hone, hq]⟩
  by_cases hone : ViewDdl.homeOnly sess (.dropSchema names cascade missingOk) = false ∧ ∃ name, names = [name]
  · obtain ⟨hhome, name, rfl⟩ := hone
    cases recorded_attached (by simp) hrec hhome
    have hpublic : orPublic name = name := if_neg (hnames name List.mem_cons_self)
    refine h.drop hdrop (fun q _ => q.schema = name)
      (fun q r => by simp [viewMirror, hpublic, and_comm]) fun q r v _ hv hvhome => ⟨?_, fun hf => ?_⟩
    · intro hschema
      exact .named ⟨by simp [hschema], by rw [hv]; rfl⟩
    · have hq := (hfell q v hf hv).resolve_left (by simp [hvhome])
      simpa [eq_comm] using hq.2
  · have hnone : change = none := by
      refine recorded_none (by simp) hrec ((Bool.eq_false_or_eq_true _).imp_right fun hhome => ?_)
      unfold attached
      split <;> simp_all
    rw [hnone]
    exact h.drop_silent hdrop fun q v hf hv =>
      (hfell q v hf hv).resolve_right fun hq => hone ⟨hq.1, _, hq.2⟩

lemma dropTable_none {c : Option ViewChange} (h : dropTable sess objects cascade = .ok c)
    (hno : cascade = false ∨ objects.length ≠ 1) : c = none := by
  obtain ⟨rels, _, hrest⟩ := bind_eq_ok h
  obtain ⟨_, _, hc⟩ := bind_eq_ok hrest
  cases hc
  split
  · simp at hno
  · rfl

lemma dropTable_one {c : Option ViewChange} (hcascade : cascade = true) (h : dropTable sess [rv] cascade = .ok c) :
    ∃ r, lookupTable sess rv = .ok r ∧ c = some {
      baseSchema := if rv.schemaname = "" then r.schema else rv.schemaname
      baseName := rv.relname, dropBase := true } := by
  subst hcascade
  obtain ⟨rels, hrels, hrest⟩ := bind_eq_ok h
  obtain ⟨_, _, hc⟩ := bind_eq_ok hrest
  obtain ⟨r, hr, hone⟩ := bind_eq_ok hrels
  cases hone
  cases hc
  exact ⟨r, hr, rfl⟩

lemma Kept.dropTable (h : Kept rows w) (htold : Told ⟨sess, path, .dropTable objects cascade missingOk⟩ w)
    (hrec : recordedChange passes keys sess (.dropTable objects cascade missingOk) = .ok change)
    (hobjects : ∀ rv ∈ objects, rv.relname ≠ "" ∧ match w.visible path rv with
      | some q => ∃ columns sharded, w.find q = some (.table columns sharded)
      | none => missingOk = true)
    (hrestrict : cascade = false → ∀ q, w.Falls (w.Named path objects) q → w.Named path objects q)
    (hdrop : w.Drops w' (w.Named path objects)) : Kept (viewMirror rows change) w' := by
  obtain ⟨c, hc, hchange⟩ := attached_ok (by nofun) hrec
  by_cases hcascade : cascade = false
  · -- what goes are tables
    have hsilent : Silent w (w.Named path objects) := by
      intro q v hf hv
      obtain ⟨rv, hrv, hvis⟩ := hrestrict hcascade q hf
      have htable := (hobjects rv hrv).2
      rw [hvis] at htable
      obtain ⟨columns, sharded, htable⟩ := htable
      rw [htable] at hv
      cases hv
    rw [hchange, dropTable_none hc (.inl hcascade), ite_self]
    exact h.drop_silent hdrop hsilent
  rcases htold.resolve_left hcascade with
    ⟨hwhere, hsilent⟩ | ⟨hhome, rv, q, columns, rfl, hvis, hq, hschema, hnested⟩
  · rw [recorded_none (by nofun) hrec (hwhere.imp id fun hlen => hc.trans (by rw [dropTable_none hc (.inr hlen)]))]
    exact h.drop_silent hdrop hsilent
  · dsimp only at hhome hvis hschema
    have hname := (hobjects rv List.mem_cons_self).1
    obtain ⟨hqname, hqschema⟩ := visible_some hvis
    obtain ⟨r, hr, rfl⟩ := dropTable_one (by simpa using hcascade) (recorded_attached (by nofun) hrec hhome)
    -- the base that is recorded is the table that goes
    have hbase : orPublic (if rv.schemaname = "" then r.schema else rv.schemaname) = q.schema := by
      by_cases hs : rv.schemaname = ""
      · rw [if_pos hs]
        exact hschema hs r hr
      · rw [if_neg hs, hqschema hs]
        exact if_neg hs
    have hfalls : ∀ x, w.Falls (w.Named path [rv]) x →
        x = q ∨ ∃ u, w.find x = some (.view u) ∧ q ∈ u.reads := by
      intro x hf
      induction hf with
      | named hx => exact .inl (by simpa [World.Named, hvis, eq_comm] using hx)
      | reader hv hread _ ih =>
        rcases ih with rfl | ⟨u, hu, hq'⟩
        · exact .inr ⟨_, hv, hread⟩
        · exact absurd hread (hnested _ _ _ _ hu hq' hv)
    refine h.drop hdrop (fun _ r' => (⟨r'.baseSchema, r'.baseName⟩ : QName) = q) (fun x r' => ?_)
      fun x r' v hr' hv _ => ⟨fun hb => ?_, fun hf => ?_⟩
    · rw [viewMirror_dropBase, hbase, Option.filter_eq_some_iff, ← hqname]
      refine and_congr_right fun _ => ?_
      obtain ⟨schema, name⟩ := q
      simp [imp_iff_not_or]
    · cases hsimple : r'.simple with
      | true =>
        have hone := (h.described x r' v hr' hv hsimple).base
        exact .reader hv (by rw [hone, hb]; exact .head _) (.named ⟨rv, List.mem_cons_self, hvis⟩)
      | false =>
        have hnone := h.baseless x r' hr' hsimple
        exact absurd (by rw [← hqname, ← hb, hnone]) hname
    · rcases hfalls x hf with rfl | ⟨u, hu, hread⟩
      · rw [hq] at hv
        cases hv
      · obtain ⟨r, hr, hsimple⟩ := h.routable x u hu (.view hu hread (.table hq))
        cases hr.symm.trans hr'
        rw [(h.described x r' u hr' hu hsimple).base, List.mem_singleton] at hread
        exact hread.symm

lemma mem_mapM {α β : Type} {f : α → Option β} {l : List α} {l' : List β} (h : l.mapM f = some l')
    {b : β} (hb : b ∈ l') : ∃ a ∈ l, f a = some b := by
  induction l generalizing l' with
  | nil =>
    cases h
    cases hb
  | cons a l ih =>
    rw [List.mapM_cons] at h
    obtain ⟨b', hb', h⟩ := Option.bind_eq_some_iff.mp h
    obtain ⟨rest, hrest, h⟩ := Option.bind_eq_some_iff.mp h
    cases h
    rcases List.mem_cons.mp hb with rfl | hb
    · exact ⟨a, List.mem_cons_self, hb'⟩
    · obtain ⟨a', ha', hf⟩ := ih hrest hb
      exact ⟨a', List.mem_cons_of_mem _ ha', hf⟩

/-- The table in the FROM of a query without WITH items is one PostgreSQL takes to the catalog. -/
lemma from_mem_catalogRefs (sess : Session) {s : SelectStmt Node}
    (hfrom : s.fromClause = [.rangeVar rv]) (hwith : s.withClause = none) : rv ∈ catalogRefs sess (.selectStmt s) := by
  have hmentions : ∀ (evs : List Event) (seen : List String) (reached : Bool),
      .table rv false reached ∈ evs → ∃ n ∈ mentionsFrom seen evs, n.shadowed = false ∧ n.rv = rv := by
    intro evs
    induction evs with
    | nil => nofun
    | cons e evs ih =>
      intro seen reached he
      rcases List.mem_cons.mp he with rfl | htail
      · exact ⟨_, List.mem_cons_self, rfl, rfl⟩
      · cases e with
        | cte name => exact ih _ _ htail
        | table rv' sh re =>
          obtain ⟨n, hn, hp⟩ := ih seen reached htail
          exact ⟨n, List.mem_cons_of_mem _ hn, hp⟩
  have hscan : ∀ reach, Event.table rv false (reach = .walked) ∈ scan reach [] (.selectStmt s) := by
    intro reach
    have hhere : Event.table rv false (reach = .walked) ∈
        scans reach (stmtScope s.withClause []) s.fromClause := by
      simp [hfrom, hwith, scans, scan, stmtScope, ctesOf, cteNames, RangeVar.isCte]
    rw [scan]
    simp only [List.mem_append, hhere, true_or, or_true]
  exact mem_catalogRefs.mpr (hmentions _ [] _ (hscan _))

/-- A table a walk saw whole mentions is among the relations of the walk. -/
lemma rel_of_covered {node : Node} (hcov : Covered sess node) (hw : walk sess node = .ok wk)
    (hrv : rv ∈ catalogRefs sess node) : ∃ r ∈ wk.rels, lookupTable sess rv = .ok r := by
  obtain ⟨n, hn, hshadow, rfl⟩ := mem_catalogRefs.mp hrv
  obtain ⟨hreach, htaken⟩ := hcov n hn hshadow
  obtain ⟨r, hr, hm⟩ := (mem_rels_mention hw).mpr ⟨n, hn, hreach, htaken, rfl⟩
  exact ⟨r, hr, hm ▸ (walk_sim hw).found r hr⟩

/-- A query over one relation that the walk saw whole mentions one table. -/
lemma catalogRefs_one {node : Node} (hw : walk sess node = .ok wk) (hrels : wk.rels = [r])
    (hcov : Covered sess node) (hrv : rv ∈ catalogRefs sess node) :
    catalogRefs sess node = [rv] ∧ lookupTable sess rv = .ok r := by
  have hseen := (walk_sim hw).rels
  rw [lookedUp_eq, hrels] at hseen
  have hlen : ((mentions sess node).filter fun n => !n.shadowed).length ≤ 1 := by
    have hsub : ((mentions sess node).filter fun n => !n.shadowed) =
        ((mentions sess node).filter fun n => n.reached && !n.taken).filter fun n => !n.shadowed := by
      rw [List.filter_filter]
      refine List.filter_congr fun n hn => ?_
      cases hshadow : n.shadowed with
      | true => rfl
      | false =>
        obtain ⟨hreach, htaken⟩ := hcov n hn hshadow
        simp [hreach, htaken]
    have hone : ((mentions sess node).filter fun n => n.reached && !n.taken).length = 1 := by
      simpa [mentions] using (congrArg List.length hseen).symm
    rw [hsub, ← hone]
    exact List.length_filter_le _ _
  refine ⟨?_, ?_⟩
  · have hrefs : (catalogRefs sess node).length ≤ 1 := by rwa [catalogRefs, List.length_map]
    rcases hall : catalogRefs sess node with _ | ⟨x, _ | _⟩
    · simp [hall] at hrv
    · simpa [hall, eq_comm] using hrv
    · simp [hall] at hrefs
  · obtain ⟨r', hr', hfound⟩ := rel_of_covered hcov hw hrv
    rw [hrels, List.mem_singleton] at hr'
    rwa [hr'] at hfound

/-- Without names of its own a view has every column of its select list. -/
lemma viewColumn_mem {v : ViewStmt} {s : SelectStmt Node} {rv : RangeVar} {columns : List String}
    (hnone : v.aliases = []) {t : Node} (ht : t ∈ s.targetList) :
    viewColumn rv columns t ∈ viewColumns v s rv columns := by
  obtain ⟨i, hi, rfl⟩ := List.getElem_of_mem ht
  refine List.mem_map.mpr ⟨(s.targetList[i], i), ?_, ?_⟩
  · exact List.mk_mem_zipIdx_iff_getElem?.mpr (List.getElem?_eq_getElem hi)
  · simp [hnone]

lemma viewColumn_projected {columns : List String} {t : Node} {name base : String}
    (h : projected t = some (name, base)) : (viewColumn rv columns t).1 = name := by
  unfold projected at h
  split at h
  · split at h
    · rename_i hlast
      split at h
      · cases h
      · cases h
        simp [viewColumn, lastName, hlast]
    · cases h
  · cases h

lemma describes_created {s : SelectStmt Node} {columns : List String}
    (hq : v.query = .selectStmt s) (hfrom : s.fromClause = [.rangeVar rv]) (hnone : v.aliases = [])
    (hspelled : Spelled v columns) (name : String) (d : Denoted) : (name, d) ∈ viewColumns v s rv columns ↔
      ∃ base, d = .column base ∧ spelled s.targetList name = some base := by
  constructor
  · intro hmem
    exact hspelled s rv hq hfrom (name, d) hmem
  · rintro ⟨base, rfl, hbase⟩
    obtain ⟨before, after, hsplit, -⟩ := List.lookup_eq_some_iff.mp hbase
    have hin : (name, base) ∈ (s.targetList.filterMap projected).reverse := by simp [hsplit]
    rw [List.mem_reverse, List.mem_filterMap] at hin
    obtain ⟨t, ht, hproj⟩ := hin
    have hcol := @viewColumn_mem v s rv columns hnone t ht
    obtain ⟨base', hd, hbase'⟩ := hspelled s rv hq hfrom _ hcol
    rw [viewColumn_projected hproj, hbase] at hbase'
    cases hbase'
    have heq : viewColumn rv columns t = (name, .column base) := Prod.ext (viewColumn_projected hproj) hd
    rwa [heq] at hcol

/-- Putting a view nobody reads changes nothing about the others. -/
lemma OverSharded.of_put {x : QName} {view : PgView} (h : (w.put q (.view view)).OverSharded x)
    (hx : x ≠ q) (hunread : ∀ x u, w.find x = some (.view u) → q ∉ u.reads) : w.OverSharded x := by
  induction h with
  | table ht => exact .table (by simpa [World.put, hx] using ht)
  | @view x base v hv hread _ ih =>
    have hv : w.find x = some (.view v) := by simpa [World.put, hx] using hv
    exact .view hv hread (ih fun hb => hunread x v hv (hb ▸ hread))

lemma Kept.put {view : PgView} (h : Kept rows w) (hunread : ∀ x u, w.find x = some (.view u) → q ∉ u.reads)
    (hother : ∀ x, x ≠ q → rows' x = rows x) (hmade : (rows' q).isSome = true ↔ view.home = false)
    (hdescribed : ∀ r, rows' q = some r → r.simple = true → Describes r view)
    (hbaseless : ∀ r, rows' q = some r → r.simple = false → r.baseName = "")
    (hroutable : (w.put q (.view view)).OverSharded q → ∃ r, rows' q = some r ∧ r.simple = true) :
    Kept rows' (w.put q (.view view)) := by
  have hself : (w.put q (.view view)).find q = some (.view view) := if_pos rfl
  have hfind : ∀ x, x ≠ q → (w.put q (.view view)).find x = w.find x := fun x hx => if_neg hx
  constructor
  · intro x
    rcases eq_or_ne x q with rfl | hx
    · rw [hself]
      simpa using hmade
    · rw [hother x hx, hfind x hx]
      exact h.made x
  · intro x r v hr hv
    rcases eq_or_ne x q with rfl | hx
    · rw [hself] at hv
      cases hv
      exact hdescribed r hr
    · rw [hother x hx] at hr
      rw [hfind x hx] at hv
      exact h.described x r v hr hv
  · intro x r hr
    rcases eq_or_ne x q with rfl | hx
    · exact hbaseless r hr
    · rw [hother x hx] at hr
      exact h.baseless x r hr
  · intro x v hv hover
    rcases eq_or_ne x q with rfl | hx
    · exact hroutable hover
    · rw [hfind x hx] at hv
      rw [hother x hx]
      exact h.routable x v hv (OverSharded.of_put hover hx hunread)

/-- A view that reads a sharded table has a sharded table among the relations of the walk. -/
lemma sharded_of_overSharded {columns : List (String × Denoted)} {home : Bool}
    (htrace : Traceable sess path w v) (hw : walk sess v.query = .ok wk) (hq : w.creation path v.view = some q)
    (hreads : (catalogRefs sess v.query).mapM (w.visible path) = some reads)
    (hover : (w.put q (.view ⟨reads, columns, home⟩)).OverSharded q) : ∃ r ∈ wk.rels, r.kind = .sharded := by
  obtain ⟨hunread, hself, _⟩ := htrace.fresh q hq
  cases hover with
  | table ht => simp [World.put] at ht
  | @view _ base u hu hread hbase =>
    obtain rfl : u = ⟨reads, columns, home⟩ := by simpa [World.put, eq_comm] using hu
    obtain ⟨rv, hrv, hvis⟩ := mem_mapM hreads hread
    have hne : base ≠ q := by
      rintro rfl
      exact hself rv hrv hvis
    have hbase := OverSharded.of_put hbase hne hunread
    obtain ⟨r, hr, hfound⟩ := rel_of_covered htrace.covered hw hrv
    obtain ⟨hsame, hkind⟩ := htrace.resolved rv hrv r hfound
    rw [hvis, Option.some.injEq] at hsame
    exact ⟨r, hr, hkind (hsame ▸ hbase)⟩

lemma recorded_create {replace : Bool} (h : recordedChange passes keys sess (.create v replace) = .ok change) :
    ∃ wk, walk sess v.query = .ok wk ∧ checkLocalView sess v wk.rels = .ok () ∧
      checkRoutable (viewChange v wk.rels) wk.rels = .ok () ∧
      change = if homeOnly sess v.view then none else some (viewChange v wk.rels) := by
  obtain ⟨p, hp, rfl⟩ := map_eq_ok h
  obtain ⟨wk, hw, hlocal, hroutable, rfl⟩ := createView_run hp
  refine ⟨wk, hw, hlocal, hroutable, ?_⟩
  cases homeOnly sess v.view <;> rfl

lemma checkLocalView_unsharded {rels : List Rel} (h : checkLocalView sess v rels = .ok ())
    (hshared : sess.localOnly = false) (hhome : homeOnly sess v.view = true) (hr : r ∈ rels) : r.kind = .unsharded := by
  have hlocal : (sess.localSchema v.view.schemaname && !sess.localOnly) = true := by
    simpa [homeOnly, hshared] using hhome
  unfold checkLocalView at h
  rw [if_pos hlocal] at h
  split at h
  · cases h
  · rename_i hnone
    simpa using List.find?_eq_none.mp hnone r hr

lemma checkRoutable_simple {change : ViewChange} {rels : List Rel}
    (h : checkRoutable change rels = .ok ()) (hr : r ∈ rels) (hkind : r.kind = .sharded) : change.simple = true := by
  by_contra hsimple
  unfold checkRoutable at h
  rw [if_neg hsimple] at h
  split at h
  · cases h
  · rename_i hnone
    simpa [hkind] using List.find?_eq_none.mp hnone r hr

lemma describes_rowOf {home : Bool} (htrace : Traceable sess path w v) (hw : walk sess v.query = .ok wk)
    (hreads : (catalogRefs sess v.query).mapM (w.visible path) = some reads)
    (hsimple : (viewChange v wk.rels).simple = true) :
    Describes (rowOf (viewChange v wk.rels)) ⟨reads, w.madeColumns other path v, home⟩ := by
  obtain ⟨s, rv, hq, hfrom, hwith, _, _, _, hmap⟩ := viewChange_simple hsimple
  rcases viewChange_base v wk.rels with ⟨r, hrels, hschema, hname, _⟩ | ⟨hshape, _⟩
  · have hrv : rv ∈ catalogRefs sess v.query := by
      rw [hq]
      exact from_mem_catalogRefs sess hfrom hwith
    obtain ⟨hrefs, hlook⟩ := catalogRefs_one hw hrels htrace.covered hrv
    obtain ⟨hvis, _⟩ := htrace.resolved rv hrv r hlook
    have hmade : w.madeColumns other path v = viewColumns v s rv (w.columnsOf (w.visible path rv)) := by
      simp [World.madeColumns, hq, hfrom, hmap]
    constructor
    · rw [hrefs, List.mapM_cons, hvis] at hreads
      cases hreads
      rw [rowOf, hschema, hname]
      rfl
    · intro name d
      rw [hmade, describes_created hq hfrom htrace.noAliases (htrace.spelled s rv hq hfrom)]
      simp [rowOf, lookup_columnMap hmap]
  · rw [hsimple] at hshape
    cases hshape

lemma Kept.create {replace : Bool} (h : Kept rows w) (htrace : Traceable sess path w v)
    (hrec : recordedChange passes keys sess (.create v replace) = .ok change)
    (hname : v.view.relname ≠ "") (hq : w.creation path v.view = some q)
    (hreads : (catalogRefs sess v.query).mapM (w.visible path) = some reads) : Kept (viewMirror rows change)
      (w.put q (.view ⟨reads, w.madeColumns other path v, homeOnly sess v.view⟩)) := by
  obtain ⟨hunread, hself, hreplaced⟩ := htrace.fresh q hq
  obtain ⟨wk, hw, hlocal, hroutable, rfl⟩ := recorded_create hrec
  cases hhome : homeOnly sess v.view with
  | true =>
    have hnone : rows q = none := by
      cases hr : rows q with
      | none => rfl
      | some r =>
        obtain ⟨u, hu, huhome⟩ := h.view hr
        rw [hreplaced u hu, hhome] at huhome
        cases huhome
    change Kept rows _
    refine h.put hunread (fun _ _ => rfl) (by simp [hnone]) (by simp [hnone]) (by simp [hnone]) ?_
    intro hover
    obtain ⟨r, hr, hkind⟩ := sharded_of_overSharded htrace hw hq hreads hover
    rw [checkLocalView_unsharded hlocal htrace.shared hhome hr] at hkind
    cases hkind
  | false =>
    change Kept (viewMirror rows (some (viewChange v wk.rels))) _
    have hqname : q = ⟨orPublic v.view.schemaname, v.view.relname⟩ := Option.some.inj (hq.symm.trans htrace.target)
    have hrow : viewMirror rows (some (viewChange v wk.rels)) q = some (rowOf (viewChange v wk.rels)) := by
      rw [viewMirror_create _ _ _ hname, if_pos hqname]
    refine h.put hunread (fun x hx => ?_) ?_ ?_ ?_ ?_
    · exact (viewMirror_create _ _ _ hname x).trans (if_neg (hqname ▸ hx))
    · simp [hrow]
    · intro r hr hsimple
      obtain rfl := Option.some.inj (hrow.symm.trans hr)
      exact describes_rowOf htrace hw hreads hsimple
    · intro r hr hsimple
      obtain rfl := Option.some.inj (hrow.symm.trans hr)
      rcases viewChange_base v wk.rels with ⟨_, _, _, _, htrue⟩ | ⟨_, hbase⟩
      · rw [rowOf, htrue] at hsimple
        cases hsimple
      · exact hbase
    · intro hover
      obtain ⟨r, hr, hkind⟩ := sharded_of_overSharded htrace hw hq hreads hover
      exact ⟨_, hrow, checkRoutable_simple hroutable hr hkind⟩

/-- A schema without relations takes another name. -/
lemma Kept.renameSchema {subname newname : String} (h : Kept rows w)
    (hempty : ∀ q, q.schema = subname → w.find q = none)
    (hunread : ∀ x u, w.find x = some (.view u) → ∀ q ∈ u.reads, q.schema ≠ subname)
    (hmoves : w.Moves w' fun x => if x.schema = subname then ⟨newname, x.name⟩ else x) : Kept rows w' := by
  generalize hf : (fun x : QName => if x.schema = subname then (⟨newname, x.name⟩ : QName) else x) = f
    at hmoves
  have hfix : ∀ x : QName, x.schema ≠ subname → f x = x := fun x hx => by rw [← hf]; exact if_neg hx
  have hmove : ∀ x r, w.find x = some r → f x = x ∧ r.move f = r := by
    intro x r hx
    refine ⟨hfix x fun hs => ?_, ?_⟩
    · rw [hempty x hs] at hx
      cases hx
    · cases r with
      | table => rfl
      | view v =>
        have hreads : v.reads.map f = v.reads := by
          conv_rhs => rw [← List.map_id v.reads]
          exact List.map_congr_left fun q hq => hfix q (hunread x v hx q hq)
        rw [Relation.move, PgView.move, hreads]
  have hsame : ∀ y, w'.find y = w.find y := by
    intro y
    refine Option.ext fun r => ?_
    rw [hmoves]
    constructor
    · rintro ⟨x, r', hx, rfl, rfl⟩
      rw [(hmove x r' hx).1, (hmove x r' hx).2]
      exact hx
    · intro hy
      exact ⟨y, r, hy, hmove y r hy⟩
  have hnone : ∀ q, ¬w.Falls (fun _ => False) q := fun q => not_falls fun _ => id
  exact h.drop_silent ⟨fun q hf => absurd hf (hnone q), fun q _ => hsame q⟩
    fun q v hf => absurd hf (hnone q)

lemma Kept.step {step : ViewStep} (h : Kept rows w) (htold : Told step w)
    (hrec : recordedChange passes keys step.sess step.stmt = .ok change)
    (hdone : Completes other step.sess step.path w w' step.stmt) : Kept (viewMirror rows change) w' := by
  obtain ⟨sess, path, stmt⟩ := step
  cases stmt with
  | create v replace =>
    obtain ⟨q, reads, hname, hq, hreads, _, rfl⟩ := hdone
    exact h.create htold hrec hname hq hreads
  | dropTable objects cascade missingOk =>
    obtain ⟨hobjects, hrestrict, hdrop, _⟩ := hdone
    exact h.dropTable htold hrec hobjects hrestrict hdrop
  | dropView objects cascade missingOk =>
    obtain ⟨hobjects, _, hdrop, _⟩ := hdone
    exact h.dropView htold hrec (fun rv hrv => (hobjects rv hrv).1) hdrop
  | dropSchema names cascade missingOk =>
    obtain ⟨hnames, hempty, hdrop, _⟩ := hdone
    exact h.dropSchema htold hrec (fun name hname => (hnames name hname).1) hempty hdrop
  | renameSchema subname newname =>
    obtain ⟨_, _, hmoves, _⟩ := hdone
    obtain ⟨hempty, hunread⟩ := htold
    rw [recorded_none (by nofun) hrec]
    · exact h.renameSchema hempty hunread hmoves
    · obtain ⟨c, hc, _⟩ := attached_ok (by nofun) hrec
      refine .inr (hc.trans ?_)
      change (if sess.localSchema subname then .error (localSchemaRename subname) else .ok none) = Except.ok c at hc
      split at hc <;> cases hc
      rfl
  | renameView | setSchema | renameColumn => exact absurd htold id

end

/-- From a database without views on, every history of statements that tell the catalog all they do
leaves rows that agree with the views. -/
theorem views_follow_records (other : ViewStmt → List (String × Denoted)) (passes : Passes) (keys : Keys)
    (w w' : World) (rows : ViewRows) (hstart : ∀ q v, w.find q ≠ some (.view v))
    (h : ViewRun other passes keys Told w (fun _ => none) w' rows) : Agrees rows w' := by
  have hkept : Kept rows w' := by
    induction h with
    | start => exact Kept.empty hstart
    | next _ htold hrec hdone ih => exact ih.step htold hrec hdone
  exact hkept.agrees

/-- A database with the sharded table `public.orders`. -/
def shopWorld : World where
  schemas := ["public"]
  find q := if q = ⟨"public", "orders"⟩ then some (.table ["tenant_id", "id"] true) else none

def publicOrders : RangeVar := { schemaname := "public", relname := "orders" }

def selectV : SelectStmt Node where
  targetList := [column "tenant_id", column "id"]
  fromClause := [.rangeVar publicOrders]

/-- `CREATE VIEW public.v AS SELECT tenant_id, id FROM public.orders` -/
def createV : ViewStmt := ⟨{ schemaname := "public", relname := "v" }, [], .selectStmt selectV⟩

def viewV : PgView := ⟨[⟨"public", "orders"⟩], [("tenant_id", .column "tenant_id"), ("id", .column "id")], false⟩

lemma shopWorld_noViews (q : QName) (v : PgView) : shopWorld.find q ≠ some (.view v) := by
  simp only [shopWorld]
  split <;> simp

lemma createV_refs : catalogRefs shop createV.query = [publicOrders] := by decide +kernel

lemma createV_accepted : ∃ c, recordedChange acceptAll byParity shop (.create createV false) = .ok (some c) ∧
    c.schema = "public" ∧ c.name = "v" ∧ c.drop = false ∧ c.dropSchema = false ∧ c.dropBase = false := by
  obtain ⟨change, hchange, hprops⟩ := exists_ok (x := recordedChange acceptAll byParity shop (.create createV false))
    (f := Option.isSome) (b := true) (by decide +kernel)
  obtain ⟨wk, _, _, _, hc⟩ := recorded_create hchange
  rw [if_neg (by decide +kernel)] at hc
  obtain ⟨hs, hn, hd, hds, hdb⟩ := viewChange_names createV wk.rels
  exact ⟨_, by rw [hchange, hc], hs, hn, hd, hds, hdb⟩

lemma createV_completes (other : ViewStmt → List (String × Denoted)) :
    Completes other shop ["public"] shopWorld (shopWorld.put ⟨"public", "v"⟩ (.view viewV))
      (.create createV false) := by
  refine ⟨⟨"public", "v"⟩, [⟨"public", "orders"⟩], by decide, rfl, ?_, .inl rfl, ?_⟩
  · rw [createV_refs]
    rfl
  · have hcolumns : shopWorld.madeColumns other ["public"] createV = viewV.columns := rfl
    rw [hcolumns]
    rfl

lemma createV_traceable : Traceable shop ["public"] shopWorld createV where
  shared := by decide +kernel
  target := by decide +kernel
  noAliases := rfl
  spelled := by
    intro s rv hs hfrom s' rv' hs' hfrom' p hp
    cases hs
    cases hfrom
    cases hs'
    cases hfrom'
    have hcols : viewColumns createV selectV publicOrders
        (shopWorld.columnsOf (shopWorld.visible ["public"] publicOrders)) = viewV.columns := rfl
    rw [hcols] at hp
    simp only [viewV, List.mem_cons, List.not_mem_nil, or_false] at hp
    rcases hp with rfl | rfl
    · exact ⟨"tenant_id", rfl, rfl⟩
    · exact ⟨"id", rfl, rfl⟩
  covered := by decide +kernel
  resolved := by
    intro rv hrv r hr
    rw [createV_refs, List.mem_singleton] at hrv
    subst hrv
    obtain ⟨r', hr', hprops⟩ := exists_ok (x := lookupTable shop publicOrders)
      (f := fun r => (r.schema, r.name, r.kind)) (b := ("public", "orders", .sharded)) (by decide +kernel)
    rw [hr] at hr'
    cases hr'
    simp only [Prod.mk.injEq] at hprops
    rw [hprops.1, hprops.2.1]
    exact ⟨rfl, fun _ => hprops.2.2⟩
  fresh := by
    intro q hq
    refine ⟨fun x u hu => absurd hu (shopWorld_noViews x u), ?_, fun u hu => absurd hu (shopWorld_noViews q u)⟩
    intro rv hrv
    rw [createV_refs, List.mem_singleton] at hrv
    subst hrv
    obtain rfl : (⟨"public", "v"⟩ : QName) = q := Option.some.inj hq
    decide +kernel

theorem views_follow_createV : ∃ rows, ViewRun (fun _ => []) acceptAll byParity Told shopWorld (fun _ => none)
        (shopWorld.put ⟨"public", "v"⟩ (.view viewV)) rows ∧
      (rows ⟨"public", "v"⟩).isSome = true ∧
      Agrees rows (shopWorld.put ⟨"public", "v"⟩ (.view viewV)) := by
  obtain ⟨c, hc, hs, hn, hd, hds, hdb⟩ := createV_accepted
  have hrun : ViewRun (fun _ => []) acceptAll byParity Told shopWorld (fun _ => none)
      (shopWorld.put ⟨"public", "v"⟩ (.view viewV)) (viewMirror (fun _ => none) (some c)) :=
    @ViewRun.next _ _ _ _ _ _ _ _ _ ⟨shop, ["public"], .create createV false⟩ _ .start
      createV_traceable hc (createV_completes _)
  refine ⟨_, hrun, ?_, views_follow_records _ _ _ _ _ _ shopWorld_noViews hrun⟩
  rw [viewMirror_put _ _ hd hds hdb (by rw [hn]; decide), hs, hn]
  rfl

/-- The relations after `ALTER VIEW public.v RENAME TO u`. -/
def renamedWorld : World := shopWorld.put ⟨"public", "u"⟩ (.view viewV)

lemma renameV_completes (other : ViewStmt → List (String × Denoted)) :
    Completes other shop ["public"] (shopWorld.put ⟨"public", "v"⟩ (.view viewV)) renamedWorld
      (.renameView { schemaname := "public", relname := "v" } "u") := by
  refine ⟨⟨"public", "v"⟩, viewV, rfl, rfl, rfl, ?_, rfl⟩
  intro y r'
  simp only [renamedWorld, World.put, shopWorld]
  constructor
  · intro hy
    by_cases hu : y = ⟨"public", "u"⟩
    · rw [if_pos hu] at hy
      cases hy
      exact ⟨⟨"public", "v"⟩, .view viewV, by simp, by simp [hu], rfl⟩
    · rw [if_neg hu] at hy
      split at hy
      · rename_i horders
        subst horders
        exact ⟨⟨"public", "orders"⟩, r', by simpa using hy, by simp, by cases hy; rfl⟩
      · cases hy
  · rintro ⟨x, r, hx, rfl, rfl⟩
    split at hx
    · rename_i hv
      cases hx
      subst hv
      rfl
    · split at hx
      · rename_i horders
        cases hx
        subst horders
        rfl
      · cases hx

/-- A renamed view keeps its row under the old name and has none under the new one. -/
theorem renamed_view_lost : ∃ rows,
    ViewRun (fun _ => []) acceptAll byParity (fun _ _ => True) shopWorld (fun _ => none) renamedWorld rows ∧
      (rows ⟨"public", "v"⟩).isSome = true ∧ (renamedWorld.find ⟨"public", "v"⟩).isNone = true ∧
      rows ⟨"public", "u"⟩ = none ∧ renamedWorld.OverSharded ⟨"public", "u"⟩ := by
  obtain ⟨c, hc, hs, hn, hd, hds, hdb⟩ := createV_accepted
  have hrows := viewMirror_put (fun _ => none) c hd hds hdb (by rw [hn]; decide)
  rw [hs, hn] at hrows
  refine ⟨viewMirror (viewMirror (fun _ => none) (some c)) none, ?_, ?_, rfl, ?_, ?_⟩
  · exact @ViewRun.next _ _ _ _ _ _ _ _ _
      ⟨shop, ["public"], .renameView { schemaname := "public", relname := "v" } "u"⟩ none
      (@ViewRun.next _ _ _ _ _ _ _ _ _ ⟨shop, ["public"], .create createV false⟩ _ .start trivial hc
        (createV_completes _)) trivial rfl (renameV_completes _)
  · exact (congrArg Option.isSome (hrows _)).trans rfl
  · exact (hrows _).trans (by simp)
  · exact .view (v := viewV) rfl List.mem_cons_self (.table rfl)

end PgShard.Ddl
