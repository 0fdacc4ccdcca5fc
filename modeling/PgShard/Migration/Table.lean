import PgShard.Migration.Entry

/-!
# A table in a shard's catalog

What the steps of a multistep migration read and change: the constraints and indexes of one table by their
names, and its partitions. The names of constraints are unique on the table, those of indexes in its schema.
`mine` marks what a step of the migration made.
-/

namespace PgShard.Migration

structure IndexDef where
  cols : List String
  including : List String := []
  nullsNotDistinct : Bool := false
  deriving DecidableEq

/-- `D` is the type of what a CHECK or a FOREIGN KEY demands. -/
inductive ConKind (D : Type)
  | check (d : D)
  | notNull (col : String)
  | key (primary : Bool) (ix : IndexDef) (deferrable initdeferred : Bool)
  | other
  deriving DecidableEq

structure Con (D : Type) where
  kind : ConKind D
  valid : Bool
  mine : Bool := false
  deriving DecidableEq

/-- `unique` is what can become a key; a partial index, one over expressions, or one that is not unique cannot. -/
inductive IndexKind
  | unique (ix : IndexDef)
  | other
  deriving DecidableEq

structure Index where
  kind : IndexKind
  valid : Bool
  mine : Bool := false
  deriving DecidableEq

/-- The name of a relation as a statement gives it; the schema is empty where the search path finds it. -/
structure RangeVar where
  schema : String := ""
  relname : String
  deriving DecidableEq

/-- What was taken away: a constraint or an index of the table. -/
inductive Dropped
  | constraint (name : String) (mine : Bool)
  | index (name : String) (mine : Bool)
  deriving DecidableEq

def Dropped.mine : Dropped → Bool
  | .constraint _ mine | .index _ mine => mine

/-- `relations` are the names in the table's schema that are taken by anything but the table's own indexes.
A partition that is still one of the table's is there with whether its detach is pending. `dropped` records
what was taken away. -/
structure Table (D : Type) where
  cons : AList fun _ : String => Con D := ∅
  idxs : AList fun _ : String => Index := ∅
  parts : AList fun _ : RangeVar => Bool := ∅
  relations : List String := []
  partitioned : Bool := false
  dropped : List Dropped := []

/-- The statements of the steps. -/
inductive Sql (D : Type)
  | addNotValid (name : String) (kind : ConKind D)
  | validate (name : String)
  | dropConstraint (name : String)
  | createUniqueIndex (name : String) (ix : IndexDef)
  | addUsingIndex (name : String) (primary deferrable initdeferred : Bool)
  | detachConcurrently (part : RangeVar)
  | detachFinalize (part : RangeVar)

/-- The statements PostgreSQL refuses inside a transaction block. -/
def Sql.outside {D : Type} : Sql D → Bool
  | .createUniqueIndex _ _ | .detachConcurrently _ => true
  | _ => false

def Con.isNotNull {D : Type} (col : String) (c : Con D) : Bool :=
  match c.kind with
  | .notNull col' => col' = col
  | _ => false

def Con.isPrimary {D : Type} (c : Con D) : Bool :=
  match c.kind with
  | .key true _ _ _ => true
  | _ => false

namespace Table

variable {D : Type} (t : Table D)

def anyCon (p : Con D → Bool) : Bool := t.cons.entries.any fun e => p e.2

/-- The step's check on the shard. -/
def holds (c : MigrationCheck) : Bool :=
  match c.kind with
  | .none => false
  | .constraint => (t.cons.lookup c.name).isSome
  | .constraintValid => (t.cons.lookup c.name).any (·.valid)
  | .notnull => t.anyCon (·.isNotNull c.name)
  | .notnullValid => t.anyCon fun k => k.isNotNull c.name && k.valid
  | .indexValid => (t.idxs.lookup c.name).any (·.valid)
  | .detached => (t.parts.lookup ⟨c.nameSchema, c.name⟩).isNone
  | .detachPending => t.parts.lookup ⟨c.nameSchema, c.name⟩ ≠ some false

def setCon (name : String) (c : Con D) : Table D := { t with cons := t.cons.insert name c }

def setIndex (name : String) (i : Index) : Table D := { t with idxs := t.idxs.insert name i }

def eraseIndex (name : String) : Table D :=
  match t.idxs.lookup name with
  | none => t
  | some i => { t with idxs := t.idxs.erase name, dropped := .index name i.mine :: t.dropped }

def withoutCon (name : String) (c : Con D) : Table D :=
  { t with cons := t.cons.erase name, dropped := .constraint name c.mine :: t.dropped }

/-- A key takes its index with it. -/
def dropConstraint (name : String) : Table D :=
  match t.cons.lookup name with
  | none => t
  | some c =>
    match c.kind with
    | .key _ _ _ _ => (t.withoutCon name c).eraseIndex name
    | _ => t.withoutCon name c

/-- A partitioned table's index is not counted as the leftover of a build. -/
def dropInvalidIndex (name : String) : Table D :=
  match t.idxs.lookup name with
  | none => t
  | some i => if i.valid || t.partitioned then t else t.eraseIndex name

/-- A column has at most one not-null constraint. -/
def addNotValid (name : String) (kind : ConKind D) : Except SqlState (Table D) :=
  if (t.cons.lookup name).isSome then .error ⟨"42", "710"⟩
  else
    match kind with
    | .notNull col =>
      if t.anyCon (·.isNotNull col) then .error ⟨"55", "000"⟩
      else .ok (t.setCon name { kind, valid := false, mine := true })
    | _ => .ok (t.setCon name { kind, valid := false, mine := true })

def createUniqueIndex (name : String) (ix : IndexDef) (valid : Bool) : Except SqlState (Table D) :=
  if t.partitioned then .error ⟨"0A", "000"⟩
  else if (t.idxs.lookup name).isSome || name ∈ t.relations then .error ⟨"42", "P07"⟩
  else .ok (t.setIndex name { kind := .unique ix, valid, mine := true })

/-- A primary key wants no not-null constraint of its columns that is not valid. -/
def addUsingIndex (name : String) (primary deferrable initdeferred : Bool) : Except SqlState (Table D) :=
  if t.partitioned then .error ⟨"0A", "000"⟩
  else if (t.cons.lookup name).isSome then .error ⟨"42", "710"⟩
  else
    match t.idxs.lookup name with
    | none => .error ⟨"42", "704"⟩
    | some i =>
      match i.kind with
      | .other => .error ⟨"42", "809"⟩
      | .unique ix =>
        if !i.valid then .error ⟨"55", "000"⟩
        else if primary && t.anyCon Con.isPrimary then .error ⟨"42", "P16"⟩
        else if primary && ix.cols.any (fun col => t.anyCon fun c => c.isNotNull col && !c.valid) then .error ⟨"55", "000"⟩
        else .ok (t.setCon name { kind := .key primary ix deferrable initdeferred, valid := true, mine := true })

/-- What a statement does where nothing comes in its way; the rows may still refuse it. -/
def effect : Sql D → Except SqlState (Table D)
  | .addNotValid name kind => t.addNotValid name kind
  | .validate name =>
    match t.cons.lookup name with
    | none => .error ⟨"42", "704"⟩
    | some c => .ok (t.setCon name { c with valid := true })
  | .dropConstraint name => .ok (t.dropConstraint name)
  | .createUniqueIndex name ix => t.createUniqueIndex name ix true
  | .addUsingIndex name primary deferrable initdeferred => t.addUsingIndex name primary deferrable initdeferred
  | .detachConcurrently part =>
    match t.parts.lookup part with
    | none => .error ⟨"42", "P01"⟩
    | some true => .error ⟨"55", "000"⟩
    | some false => .ok { t with parts := t.parts.erase part }
  | .detachFinalize part =>
    match t.parts.lookup part with
    | some true => .ok { t with parts := t.parts.erase part }
    | _ => .error ⟨"55", "000"⟩

/-- What a statement leaves that fails on its way: a build an invalid index, a detach one that is pending. -/
def halfway : Sql D → Table D
  | .createUniqueIndex name ix => (t.createUniqueIndex name ix false).toOption.getD t
  | .detachConcurrently part => if t.parts.lookup part = some false then { t with parts := t.parts.insert part true } else t
  | _ => t

end Table

/-- How far a statement came that ended with an error. -/
inductive Reach
  | nothing
  | halfway
  | whole
  deriving DecidableEq

/-- What the world makes of a call. The defaults are a call on which nothing goes wrong. -/
structure StepLuck where
  err : Option Err := none
  reach : Reach := .nothing
  cancelled : Bool := false

inductive StepCall (D : Type)
  | prepare
  | checkHolds (c : MigrationCheck)
  | ctxErr
  | exec (sql : Sql D)
  | inTransaction (sql : Sql D)
  | dropInvalidIndex (name : String)

abbrev StepCall.Reply {D : Type} : StepCall D → Type
  | .prepare | .exec _ | .inTransaction _ | .dropInvalidIndex _ => Option Err
  | .checkHolds _ => Except Err Bool
  | .ctxErr => Bool

namespace Table

variable {D : Type}

/-- What an error leaves. -/
def after (t : Table D) (x : StepLuck) (sql : Sql D) : Table D :=
  match x.reach with
  | .nothing => t
  | .halfway => t.halfway sql
  | .whole => (t.effect sql).toOption.getD t

def execSql (t : Table D) (x : StepLuck) (sql : Sql D) : Option Err × Table D :=
  match x.err with
  | some e => (some e, t.after x sql)
  | none =>
    match t.effect sql with
    | .ok u => (none, u)
    | .error code => (some { text := "", code }, t)

def exec (x : StepLuck) : (c : StepCall D) → Table D → c.Reply × Table D
  | .prepare, t => (x.err, t)
  | .checkHolds c, t =>
    match x.err with
    | some e => (.error e, t)
    | none => (.ok (t.holds c), t)
  | .ctxErr, t => (x.cancelled, t)
  | .exec sql, t => t.execSql x sql
  | .inTransaction sql, t =>
    if sql.outside then (some { text := "", code := ⟨"25", "001"⟩ }, t) else t.execSql x sql
  | .dropInvalidIndex name, t =>
    match x.err with
    | some e => (some e, if x.reach = .whole then t.dropInvalidIndex name else t)
    | none => (none, t.dropInvalidIndex name)

end Table

namespace Table

variable {D : Type} {t u : Table D} {n m : String} {c : Con D} {i : Index}

lemma anyCon_iff {p : Con D → Bool} : t.anyCon p = true ↔ ∃ n c, t.cons.lookup n = some c ∧ p c = true := by
  simp only [anyCon, List.any_eq_true]
  constructor
  · rintro ⟨⟨n, c⟩, hmem, hp⟩
    exact ⟨n, c, AList.mem_lookup_iff.mpr hmem, hp⟩
  · rintro ⟨n, c, hc, hp⟩
    exact ⟨⟨n, c⟩, AList.mem_lookup_iff.mp hc, hp⟩

@[simp] lemma con_setCon : (t.setCon n c).cons.lookup n = some c := AList.lookup_insert _

/-- What is found in a table of names after a change of one. -/
lemma lookup_of_insert {A : Type} {a : AList fun _ : String => A} {x y : A}
    (h : (a.insert n x).lookup m = some y) : m = n ∧ y = x ∨ m ≠ n ∧ a.lookup m = some y := by
  by_cases hm : m = n
  · subst hm
    rw [AList.lookup_insert] at h
    exact .inl ⟨rfl, (Option.some.inj h).symm⟩
  · exact .inr ⟨hm, AList.lookup_insert_ne hm ▸ h⟩

lemma lookup_of_erase {A : Type} {a : AList fun _ : String => A} {x : A}
    (h : (a.erase n).lookup m = some x) : m ≠ n ∧ a.lookup m = some x := by
  have hm : m ≠ n := by
    rintro rfl
    rw [AList.lookup_erase] at h
    cases h
  exact ⟨hm, AList.lookup_erase_ne hm ▸ h⟩

lemma con_setCon_ne (h : m ≠ n) : (t.setCon n c).cons.lookup m = t.cons.lookup m := AList.lookup_insert_ne h

@[simp] lemma index_setIndex : (t.setIndex n i).idxs.lookup n = some i := AList.lookup_insert _

lemma index_setIndex_ne (h : m ≠ n) : (t.setIndex n i).idxs.lookup m = t.idxs.lookup m := AList.lookup_insert_ne h

lemma addNotValid_ok {kind : ConKind D} (h : t.addNotValid n kind = .ok u) :
    t.cons.lookup n = none ∧ u = t.setCon n { kind, valid := false, mine := true } := by
  unfold addNotValid at h
  split at h
  · cases h
  · rename_i hn
    refine ⟨by simpa using hn, ?_⟩
    cases kind with
    | notNull col =>
      dsimp only at h
      split at h
      · cases h
      · exact (Except.ok.inj h).symm
    | check _ | key _ _ _ _ | other => exact (Except.ok.inj h).symm

lemma validate_ok (h : t.effect (.validate n) = .ok u) :
    ∃ c, t.cons.lookup n = some c ∧ u = t.setCon n { c with valid := true } := by
  unfold effect at h
  cases hc : t.cons.lookup n with
  | none => simp [hc] at h
  | some c =>
    simp only [hc] at h
    exact ⟨c, rfl, (Except.ok.inj h).symm⟩

lemma createUniqueIndex_ok {ix : IndexDef} {valid : Bool} (h : t.createUniqueIndex n ix valid = .ok u) :
    t.idxs.lookup n = none ∧ n ∉ t.relations ∧ u = t.setIndex n { kind := .unique ix, valid, mine := true } := by
  unfold createUniqueIndex at h
  split at h
  · cases h
  · split at h
    · cases h
    · rename_i hn
      simp only [Bool.or_eq_true, decide_eq_true_eq, not_or] at hn
      exact ⟨by simpa using hn.1, hn.2, (Except.ok.inj h).symm⟩

lemma detach_ok {sql : Sql D} {part : RangeVar} (hsql : sql = .detachConcurrently part ∨ sql = .detachFinalize part)
    (h : t.effect sql = .ok u) : u = { t with parts := t.parts.erase part } := by
  rcases hsql with rfl | rfl <;> simp only [effect] at h <;> split at h <;> cases h <;> rfl

lemma addUsingIndex_ok {primary deferrable initdeferred : Bool}
    (h : t.addUsingIndex n primary deferrable initdeferred = .ok u) :
    t.cons.lookup n = none ∧ ∃ i ix, t.idxs.lookup n = some i ∧ i.kind = .unique ix ∧
      u = t.setCon n { kind := .key primary ix deferrable initdeferred, valid := true, mine := true } := by
  unfold addUsingIndex at h
  split at h
  · cases h
  · split at h
    · cases h
    · rename_i hn
      cases hi : t.idxs.lookup n with
      | none => simp [hi] at h
      | some i =>
        simp only [hi] at h
        cases hix : i.kind with
        | other => simp [hix] at h
        | unique ix =>
          simp only [hix] at h
          split at h
          · cases h
          · split at h
            · cases h
            · split at h
              · cases h
              · exact ⟨by simpa using hn, i, ix, rfl, hix, (Except.ok.inj h).symm⟩

/-- Constraints and indexes are taken away at most. -/
structure Drops (t u : Table D) : Prop where
  cons : ∀ m c, u.cons.lookup m = some c → t.cons.lookup m = some c := by exact fun _ _ => id
  idxs : ∀ m i, u.idxs.lookup m = some i → t.idxs.lookup m = some i := by exact fun _ _ => id
  relations : u.relations = t.relations := by rfl

lemma Drops.trans {v : Table D} (h : Drops t u) (h' : Drops u v) : Drops t v :=
  ⟨fun m c hc => h.cons m c (h'.cons m c hc), fun m i hi => h.idxs m i (h'.idxs m i hi), h'.relations.trans h.relations⟩

lemma drops_eraseIndex (t : Table D) (n : String) : Drops t (t.eraseIndex n) := by
  unfold eraseIndex
  cases t.idxs.lookup n with
  | none => exact {}
  | some i => exact { idxs := fun m j hj => (lookup_of_erase hj).2 }

lemma drops_dropInvalidIndex (t : Table D) (n : String) : Drops t (t.dropInvalidIndex n) := by
  unfold dropInvalidIndex
  split
  · exact {}
  · split
    · exact {}
    · exact drops_eraseIndex t n

@[simp] lemma cons_eraseIndex : (t.eraseIndex n).cons = t.cons := by
  unfold eraseIndex
  split <;> rfl

@[simp] lemma cons_dropInvalidIndex : (t.dropInvalidIndex n).cons = t.cons := by
  unfold dropInvalidIndex
  split
  · rfl
  · split
    · rfl
    · exact cons_eraseIndex

lemma dropInvalidIndex_eq (h : ∀ i, t.idxs.lookup n = some i → (i.valid || t.partitioned) = true) :
    t.dropInvalidIndex n = t := by
  unfold dropInvalidIndex
  cases hi : t.idxs.lookup n with
  | none => rfl
  | some i => simp [h i hi]

lemma drops_withoutCon (t : Table D) (n : String) (c : Con D) : Drops t (t.withoutCon n c) :=
  { cons := fun _ _ hc => (lookup_of_erase hc).2 }

lemma dropConstraint_cases (t : Table D) (n : String) :
    (t.cons.lookup n = none ∧ t.dropConstraint n = t) ∨ ∃ c, t.cons.lookup n = some c ∧
        (t.dropConstraint n = t.withoutCon n c ∨
          (∃ p ix d b, c.kind = .key p ix d b) ∧ t.dropConstraint n = (t.withoutCon n c).eraseIndex n) := by
  unfold dropConstraint
  cases hc : t.cons.lookup n with
  | none => exact .inl ⟨rfl, rfl⟩
  | some c =>
    refine .inr ⟨c, rfl, ?_⟩
    cases hk : c.kind with
    | key p ix d b => exact .inr ⟨⟨p, ix, d, b, rfl⟩, by simp only [hk]⟩
    | check _ | notNull _ | other => exact .inl (by simp only [hk])

lemma drops_dropConstraint (t : Table D) (n : String) : Drops t (t.dropConstraint n) := by
  rcases dropConstraint_cases t n with ⟨-, he⟩ | ⟨c, hc, he | ⟨-, he⟩⟩
  · rw [he]
    exact {}
  · rw [he]
    exact drops_withoutCon t n c
  · rw [he]
    exact (drops_withoutCon t n c).trans (drops_eraseIndex _ n)

@[simp] lemma con_dropConstraint : (t.dropConstraint n).cons.lookup n = none := by
  rcases dropConstraint_cases t n with ⟨hc, he⟩ | ⟨c, hc, he | ⟨-, he⟩⟩
  · rw [he]
    exact hc
  · rw [he]
    exact AList.lookup_erase ..
  · rw [he, cons_eraseIndex]
    exact AList.lookup_erase ..

end Table

end PgShard.Migration
