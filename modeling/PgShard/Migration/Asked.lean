import PgShard.Migration.StepRules

/-!
# What a completed multistep migration has done

The checks before the steps go by names. Where the names the steps use are free at the start, a shard on which
every step was run or skipped has what the statement asks for.
-/

namespace PgShard.Migration

variable {D : Type}

/-- A validated constraint of the kind, under the name the statement gives it if it gives one. -/
def Table.Has (t : Table D) (conname : String) (kind : ConKind D) : Prop :=
  ∃ n c, (conname ≠ "" → n = conname) ∧ t.cons.lookup n = some c ∧ c.kind = kind ∧ c.valid = true

def ConstraintDef.kind (cs : ConstraintDef D) : ConKind D :=
  match cs.contype with
  | .check | .foreign => .check cs.body
  | .primary | .unique => .key cs.isPrimary cs.index cs.deferrable (cs.deferrable && cs.initdeferred)
  | .other => .other

def AlterTableCmd.Asked (t : Table D) : AlterTableCmd D → Prop
  | .addConstraint cs => t.Has cs.conname cs.kind
  | .setNotNull col => t.Has "" (.notNull col)
  | .detachPartition part _ => t.parts.lookup part = none
  | .other => True

/-- PostgreSQL refuses the statement because the name it gives is taken. A key takes the name of a relation too. -/
def AlterTableCmd.NameTaken (t : Table D) : AlterTableCmd D → Prop
  | .addConstraint cs => cs.conname ≠ "" ∧
    match cs.contype with
    | .check | .foreign => t.cons.lookup cs.conname ≠ none
    | .primary | .unique =>
      t.cons.lookup cs.conname ≠ none ∨ t.idxs.lookup cs.conname ≠ none ∨ cs.conname ∈ t.relations
    | .other => False
  | _ => False

/-- The column has a not-null constraint that awaits its validation. -/
def Table.Awaits (t : Table D) (col : String) : Prop :=
  ∃ n c, t.cons.lookup n = some c ∧ c.kind = .notNull col ∧ c.valid = false

section

variable (hash : String → String) (rv : RangeVar)

/-- The names the steps use are free: no constraint has them, no index of the table has the name of the key,
and that is not the name a not-null constraint of the key's columns is given. A not-null constraint that awaits
its validation has the name the steps use, or nothing has. -/
def AlterTableCmd.NamesFree (t : Table D) : AlterTableCmd D → Prop
  | .addConstraint cs =>
    match cs.contype with
    | .check => t.cons.lookup (cs.validatedName hash rv "check") = none
    | .foreign => t.cons.lookup (cs.validatedName hash rv "fkey") = none
    | .primary | .unique =>
      t.cons.lookup (cs.keyName hash rv) = none ∧ t.idxs.lookup (cs.keyName hash rv) = none ∧
        (cs.isPrimary = true → ∀ col ∈ cs.keys, notNullName hash rv col ≠ cs.keyName hash rv)
    | .other => True
  | .setNotNull col =>
    t.Awaits col → ∀ c, t.cons.lookup (notNullName hash rv col) = some c → c.kind = .notNull col
  | _ => True

end

/-! ### A constraint that is added and validated -/

/-- What has the name is of the kind. -/
def Table.Reserved (n : String) (kind : ConKind D) (t : Table D) : Prop := ∀ c, t.cons.lookup n = some c → c.kind = kind

section

variable {t u : Table D} {n : String} {kind : ConKind D}

lemma reserved_added (h : t.effect (.addNotValid n kind) = .ok u) : u.Reserved n kind := by
  obtain ⟨-, rfl⟩ := Table.addNotValid_ok h
  intro c hc
  rw [Table.con_setCon] at hc
  cases hc
  rfl

lemma reserved_validated (ht : t.Reserved n kind) (h : t.effect (.validate n) = .ok u) :
    u.Reserved n kind ∧ ∃ c, u.cons.lookup n = some c ∧ c.kind = kind ∧ c.valid = true := by
  obtain ⟨c, hc, rfl⟩ := Table.validate_ok h
  refine ⟨fun c' hc' => ?_, _, Table.con_setCon, ht c hc, rfl⟩
  rw [Table.con_setCon] at hc'
  cases hc'
  exact ht c hc

lemma reserved_dropped (ht : t.Reserved n kind) (h : t.Left (.dropConstraint n) u) : u.Reserved n kind := by
  cases h with
  | nothing | halfway => exact ht
  | whole hu =>
    cases hu
    intro c hc
    rw [Table.con_dropConstraint] at hc
    cases hc

/-- Once what has the name is of the kind, the second step validates that. -/
lemma reserved_spec {rv : RangeVar} {target : String} {valid : CheckKind} {I Q : Table D → Prop}
    (hskips : ∀ t, I t → t.holds (check rv target valid) = true → Q t)
    (henters : ∀ t, I t → t.holds (check rv target valid) = false → t.Reserved n kind)
    (hstays : ∀ t, t.Reserved n kind → I t)
    (hdone : ∀ t c, t.cons.lookup n = some c → c.kind = kind → c.valid = true → Q t) :
    StepSpec { sql := .validate n, skip := check rv target valid, onFail := some (.dropConstraint n) } I
      (Table.Reserved n kind) Q where
  skips := hskips
  enters := henters
  stays := hstays
  lands t u ht hu := by
    obtain ⟨hreserved, c, hc, hkind, hvalid⟩ := reserved_validated ht hu
    exact ⟨hreserved, hdone u c hc hkind hvalid⟩
  undoes t u sql ht hsql hu := by
    cases hsql
    exact hstays u (reserved_dropped ht hu)

lemma holds_constraintValid (rv : RangeVar) : t.holds (check rv n .constraintValid) = true ↔
    ∃ c, t.cons.lookup n = some c ∧ c.valid = true := by
  simp only [Table.holds, check]
  cases t.cons.lookup n with
  | none => simp
  | some c => simp

variable {F : Table D → Prop} {rv : RangeVar}

lemma guided_check (hF : ∀ t c, t.cons.lookup n = some c → c.kind = kind → c.valid = true → F t) :
    Guided (fun _ => True) F (addAndValidate rv n kind n .constraint .constraintValid) (Table.Reserved n kind) := by
  refine .step (J := Table.Reserved n kind) (Q := Table.Reserved n kind) { lands := fun t u _ hu => ?_ }
    (.step (reserved_spec (fun t ht hskip => ?_) (fun _ ht _ => ht) (fun _ ht => ht) hF) (.done fun _ ht => ht))
  · exact ⟨reserved_added hu, reserved_added hu⟩
  · obtain ⟨c, hc, hvalid⟩ := (holds_constraintValid rv).mp hskip
    exact hF t c hc (ht c hc) hvalid

end

/-! ### A column that is to be not null -/

section

variable {t u : Table D} {n col : String}

lemma Con.isNotNull_iff {c : Con D} : c.isNotNull col = true ↔ c.kind = .notNull col := by
  unfold Con.isNotNull
  cases c.kind with
  | notNull col' => simp
  | check _ | key _ _ _ _ | other => simp

lemma holds_notnull (rv : RangeVar) : t.holds (check rv col .notnull) = true ↔
    ∃ n c, t.cons.lookup n = some c ∧ c.kind = .notNull col := by
  simp only [Table.holds, check, Table.anyCon_iff, Con.isNotNull_iff]

lemma holds_notnullValid (rv : RangeVar) : t.holds (check rv col .notnullValid) = true ↔
    ∃ n c, t.cons.lookup n = some c ∧ c.kind = .notNull col ∧ c.valid = true := by
  simp only [Table.holds, check, Table.anyCon_iff, Bool.and_eq_true, Con.isNotNull_iff]

def NotNullFree (n col : String) (t : Table D) : Prop := t.Awaits col → t.Reserved n (.notNull col)

/-- The first step is over: the column has a not-null constraint, unless the name was freed again. -/
def NotNullAdded (n col : String) (t : Table D) : Prop :=
  NotNullFree n col t ∧ ((∃ m c, t.cons.lookup m = some c ∧ c.kind = .notNull col) ∨ t.cons.lookup n = none)

lemma added_of_reserved (ht : t.Reserved n (.notNull col)) : NotNullAdded n col t := by
  refine ⟨fun _ => ht, ?_⟩
  cases hc : t.cons.lookup n with
  | none => exact .inr rfl
  | some c => exact .inl ⟨n, c, hc, ht c hc⟩

/-- Where the column has no valid not-null constraint, what has the name is the one that awaits validation. -/
lemma reserved_of_added {rv : RangeVar} (ht : NotNullAdded n col t)
    (hskip : t.holds (check rv col .notnullValid) = false) : t.Reserved n (.notNull col) := by
  intro c hc
  rcases ht.2 with ⟨m, c', hc', hkind⟩ | hnone
  · refine ht.1 ⟨m, c', hc', hkind, ?_⟩ c hc
    by_contra hvalid
    have hholds := (holds_notnullValid rv).mpr ⟨m, c', hc', hkind, by simpa using hvalid⟩
    rw [hskip] at hholds
    cases hholds
  · rw [hnone] at hc
    cases hc

lemma guided_notNull {rv : RangeVar} : Guided (fun _ => True) (fun t => t.Has "" (.notNull col))
      (addAndValidate rv n (.notNull col : ConKind D) col .notnull .notnullValid) (NotNullFree n col) := by
  refine .step (J := NotNullFree n col) (Q := NotNullAdded n col)
    { skips := fun t ht hskip => ⟨ht, .inl ((holds_notnull rv).mp hskip)⟩, lands := fun t u _ hu => ?_ }
    (.step (reserved_spec (Q := fun t => t.Has "" (.notNull col)) (fun t _ hskip => ?_) (fun t ht => reserved_of_added ht)
      (fun t => added_of_reserved) fun t c hc hkind hvalid => ⟨n, c, nofun, hc, hkind, hvalid⟩) (.done fun _ ht => ht))
  · have hreserved := reserved_added hu
    exact ⟨fun _ => hreserved, added_of_reserved hreserved⟩
  · obtain ⟨m, c, hc, hkind, hvalid⟩ := (holds_notnullValid rv).mp hskip
    exact ⟨m, c, nofun, hc, hkind, hvalid⟩

end

/-! ### A key that is built and attached -/

section

variable {t u : Table D} {n m : String} {ix : IndexDef} {primary deferrable initdeferred : Bool} {names : List String}

/-- What has the key's name is what the steps of the key have put there. -/
structure KeyOnly (names : List String) (n : String) (ix : IndexDef) (kind : ConKind D) (t : Table D) : Prop where
  relations : t.relations = names
  con : ∀ c, t.cons.lookup n = some c → c.kind = kind ∧ c.valid = true ∧ n ∉ names
  index : ∀ i, t.idxs.lookup n = some i → i.kind = .unique ix ∧ n ∉ names

lemma KeyOnly.drops {kind : ConKind D} (h : KeyOnly names n ix kind t) (hd : t.Drops u) : KeyOnly names n ix kind u :=
  ⟨hd.relations.trans h.relations, fun c hc => h.con c (hd.cons n c hc), fun i hi => h.index i (hd.idxs n i hi)⟩

lemma KeyOnly.created {kind : ConKind D} {valid : Bool} (h : KeyOnly names n ix kind t)
    (hu : t.createUniqueIndex n ix valid = .ok u) : KeyOnly names n ix kind u := by
  obtain ⟨-, hfree, rfl⟩ := Table.createUniqueIndex_ok hu
  refine ⟨h.relations, h.con, fun i hi => ?_⟩
  rw [Table.index_setIndex] at hi
  cases hi
  exact ⟨rfl, h.relations ▸ hfree⟩

lemma KeyOnly.other {kind : ConKind D} {c : Con D} (h : KeyOnly names n ix kind t) (hm : m ≠ n) :
    KeyOnly names n ix kind (t.setCon m c) :=
  ⟨h.relations, fun c hc => h.con c ((Table.con_setCon_ne hm.symm).symm.trans hc), h.index⟩

lemma create_spec (rv : RangeVar) {kind : ConKind D} :
    StepSpec { sql := .createUniqueIndex n ix, concurrent := true, index := n, skip := check rv n .indexValid }
      (KeyOnly names n ix kind) (KeyOnly names n ix kind) (KeyOnly names n ix kind) where
  drops t ht _ := ht.drops (Table.drops_dropInvalidIndex t n)
  halves t ht := by
    simp only [Table.halfway]
    cases hu : t.createUniqueIndex n ix false with
    | error code => exact ht
    | ok u => exact ht.created hu
  lands t u ht hu := ⟨ht.created hu, ht.created hu⟩

lemma attach_spec (rv : RangeVar) :
    StepSpec { sql := .addUsingIndex n primary deferrable initdeferred, skip := check rv n .constraint }
      (KeyOnly names n ix (.key primary ix deferrable initdeferred : ConKind D))
      (KeyOnly names n ix (.key primary ix deferrable initdeferred))
      (fun t => KeyOnly names n ix (.key primary ix deferrable initdeferred) t ∧ ∃ c, t.cons.lookup n = some c) := by
  refine { skips := fun t ht hskip => ⟨ht, ?_⟩, lands := fun t u ht hu => ?_ }
  · simpa [Table.holds, check, Option.isSome_iff_exists] using hskip
  · obtain ⟨-, i, ix', hi, hix, rfl⟩ := Table.addUsingIndex_ok hu
    obtain ⟨hkind, hfree⟩ := ht.index i hi
    cases hix.symm.trans hkind
    have hkey : KeyOnly names n ix (.key primary ix deferrable initdeferred)
        (t.setCon n { kind := .key primary ix deferrable initdeferred, valid := true, mine := true }) := by
      refine ⟨ht.relations, fun c hc => ?_, ht.index⟩
      rw [Table.con_setCon] at hc
      cases hc
      exact ⟨rfl, rfl, hfree⟩
    exact ⟨hkey, hkey, _, Table.con_setCon⟩

/-- The columns are made not null under other names. -/
lemma keyOnly_beside {rv : RangeVar} {kind kind' : ConKind D} {target : String} {added valid : CheckKind}
    {F : Table D → Prop} (hm : m ≠ n) {rest : List (MigrationStep D)}
    (hrest : Guided (fun _ => True) F rest (KeyOnly names n ix kind)) :
    Guided (fun _ => True) F (addAndValidate rv m kind' target added valid ++ rest) (KeyOnly names n ix kind) := by
  refine .step (J := KeyOnly names n ix kind) (Q := KeyOnly names n ix kind) { lands := fun t u ht hu => ?_ }
    (.step (J := KeyOnly names n ix kind) (Q := KeyOnly names n ix kind) ?_ hrest)
  · obtain ⟨-, rfl⟩ := Table.addNotValid_ok hu
    exact ⟨ht.other hm, ht.other hm⟩
  · refine { lands := fun t u ht hu => ?_, undoes := fun t u sql ht hsql hu => ?_ }
    · obtain ⟨c, -, rfl⟩ := Table.validate_ok hu
      exact ⟨ht.other hm, ht.other hm⟩
    · cases hsql
      cases hu with
      | nothing | halfway => exact ht
      | whole hu =>
        cases hu
        exact ht.drops (Table.drops_dropConstraint t m)

end

lemma guided_detach {rv part : RangeVar} :
    Guided (fun _ => True) (fun t : Table D => t.parts.lookup part = none) (detachSteps rv part) fun _ => True := by
  refine .step (J := fun _ => True) (Q := fun t => t.parts.lookup part ≠ some false) ?_
    (.step (J := fun t => t.parts.lookup part ≠ some false) (Q := fun t => t.parts.lookup part = none) ?_
      (.done fun _ ht => ht))
  · refine { skips := fun t _ hskip => of_decide_eq_true hskip, lands := fun t u _ hu => ⟨trivial, ?_⟩ }
    rw [Table.detach_ok (.inl rfl) hu]
    simp
  · refine { skips := fun t _ hskip => ?_, lands := fun t u _ hu => ?_ }
    · simpa [Table.holds, check] using hskip
    · rw [Table.detach_ok (.inr rfl) hu]
      simp

section

variable {hash : String → String} {rv : RangeVar} {t : Table D} {cs : ConstraintDef D}

lemma validatedName_given {suffix : String} (h : cs.conname ≠ "") : cs.validatedName hash rv suffix = cs.conname :=
  if_neg h

lemma keyName_given (h : cs.conname ≠ "") : cs.keyName hash rv = cs.conname := if_neg h

lemma guided_validated {suffix : String} (hkind : cs.kind = .check cs.body)
    (hfree : t.cons.lookup (cs.validatedName hash rv suffix) = none) :
    ∃ I, Guided (fun _ => True) (fun u => u.Has cs.conname cs.kind) (validatedSteps hash rv cs suffix) I ∧ I t := by
  refine ⟨_, guided_check fun u c hc hk hvalid => ⟨_, c, fun h => validatedName_given h, hc, hk.trans hkind.symm, hvalid⟩,
    fun c hc => ?_⟩
  rw [hfree] at hc
  cases hc

lemma guided_unique (hkind : cs.kind = .key cs.isPrimary cs.index cs.deferrable (cs.deferrable && cs.initdeferred))
    (hcon : t.cons.lookup (cs.keyName hash rv) = none) (hindex : t.idxs.lookup (cs.keyName hash rv) = none)
    (hapart : cs.isPrimary = true → ∀ col ∈ cs.keys, notNullName hash rv col ≠ cs.keyName hash rv) :
    ∃ I, Guided (fun _ => True) (fun u => u.Has cs.conname cs.kind ∧ cs.keyName hash rv ∉ t.relations)
      (uniqueSteps hash rv cs) I ∧ I t := by
  refine ⟨KeyOnly t.relations (cs.keyName hash rv) cs.index cs.kind, ?_, rfl, fun c hc => ?_, fun i hi => ?_⟩
  · have hkey : Guided (fun _ => True) (fun u => u.Has cs.conname cs.kind ∧ cs.keyName hash rv ∉ t.relations) _
        (KeyOnly t.relations (cs.keyName hash rv) cs.index cs.kind) :=
      .step (create_spec rv) (.step (hkind ▸ attach_spec rv) (.done fun u hu => ?_))
    · unfold uniqueSteps
      split
      · rename_i hprimary
        exact Guided.flatMap hkey cs.keys fun col hcol rest hrest => keyOnly_beside (hapart hprimary col hcol) hrest
      · exact hkey
    · obtain ⟨honly, c, hc⟩ := hu
      obtain ⟨hk, hvalid, hfree⟩ := honly.con c hc
      exact ⟨⟨_, c, fun h => keyName_given h, hc, hk, hvalid⟩, hfree⟩
  · rw [hcon] at hc
    cases hc
  · rw [hindex] at hi
    cases hi

variable {checkColocated : ConstraintDef D → Option String} {steps : List (MigrationStep D)}

/-- A CHECK or a FOREIGN KEY whose name was free was not refused for it. -/
lemma not_taken_validated {suffix : String} (hcon : cs.contype = .check ∨ cs.contype = .foreign)
    (hfree : t.cons.lookup (cs.validatedName hash rv suffix) = none) : ¬(AlterTableCmd.addConstraint cs).NameTaken t := by
  rintro ⟨hgiven, htaken⟩
  rw [validatedName_given hgiven] at hfree
  rcases hcon with hcon | hcon <;> simp only [hcon] at htaken <;> exact htaken hfree

lemma not_taken_key (hcon : cs.contype = .primary ∨ cs.contype = .unique)
    (hfree : t.cons.lookup (cs.keyName hash rv) = none) (hindex : t.idxs.lookup (cs.keyName hash rv) = none)
    (hnew : cs.keyName hash rv ∉ t.relations) : ¬(AlterTableCmd.addConstraint cs).NameTaken t := by
  rintro ⟨hgiven, htaken⟩
  rw [keyName_given hgiven] at hfree hindex hnew
  have htaken : t.cons.lookup cs.conname ≠ none ∨ t.idxs.lookup cs.conname ≠ none ∨ cs.conname ∈ t.relations := by
    rcases hcon with hcon | hcon <;> simpa only [hcon] using htaken
  simp [hfree, hindex, hnew] at htaken

variable (hash rv) in
/-- The steps an action is turned into, if any. -/
inductive Planned : AlterTableCmd D → List (MigrationStep D) → Prop
  | none {cmd : AlterTableCmd D} : Planned cmd []
  | validated {cs : ConstraintDef D} {suffix : String}
      (hcon : cs.contype = .check ∧ suffix = "check" ∨ cs.contype = .foreign ∧ suffix = "fkey") :
      Planned (.addConstraint cs) (validatedSteps hash rv cs suffix)
  | key {cs : ConstraintDef D} (hcon : cs.contype = .primary ∨ cs.contype = .unique) :
      Planned (.addConstraint cs) (uniqueSteps hash rv cs)
  | notNull {col : String} : Planned (.setNotNull col) (notNullSteps hash rv col)
  | detach {part : RangeVar} : Planned (.detachPartition part false) (detachSteps rv part)

lemma cmdSteps_planned {cmd : AlterTableCmd D} (hsteps : cmdSteps hash rv checkColocated cmd = .ok steps) :
    Planned hash rv cmd steps := by
  cases cmd with
  | setNotNull col =>
    cases hsteps
    exact .notNull
  | detachPartition part concurrent =>
    cases hsteps
    cases concurrent with
    | true => exact .none
    | false => exact .detach
  | other =>
    cases hsteps
    exact .none
  | addConstraint cs =>
    simp only [cmdSteps, constraintSteps] at hsteps
    split at hsteps
    · cases hsteps
      split
      · exact .none
      · exact .validated (.inl ⟨‹_›, rfl⟩)
    · split at hsteps
      · cases hsteps
      · cases hsteps
        split
        · exact .none
        · exact .validated (.inr ⟨‹_›, rfl⟩)
    · cases hsteps
      split
      · exact .none
      · exact .key (.inl ‹_›)
    · cases hsteps
      split
      · exact .none
      · exact .key (.inr ‹_›)
    · cases hsteps
      exact .none

/-- What alterSteps turns into steps is a single action. -/
lemma alterSteps_planned {cmds : List (AlterTableCmd D)} (hsteps : alterSteps hash rv checkColocated cmds = .ok steps) :
    steps = [] ∨ ∃ cmd, cmds = [cmd] ∧ Planned hash rv cmd steps := by
  match cmds, hsteps with
  | [], hsteps => exact .inl (Except.ok.inj hsteps).symm
  | [cmd], hsteps => exact .inr ⟨cmd, rfl, cmdSteps_planned hsteps⟩
  | _ :: _ :: _, hsteps =>
    simp only [alterSteps] at hsteps
    split at hsteps
    · cases hsteps
    · exact .inl (Except.ok.inj hsteps).symm

lemma guided_planned {cmd : AlterTableCmd D} (hsteps : Planned hash rv cmd steps) (hne : steps ≠ [])
    (hfree : cmd.NamesFree hash rv t) :
    ∃ I, Guided (fun _ => True) (fun u => cmd.Asked u ∧ ¬cmd.NameTaken t) steps I ∧ I t := by
  cases hsteps with
  | none => exact absurd rfl hne
  | @validated cs suffix hcon =>
    have hnone : t.cons.lookup (cs.validatedName hash rv suffix) = none := by
      rcases hcon with ⟨hcon, rfl⟩ | ⟨hcon, rfl⟩ <;> simpa only [AlterTableCmd.NamesFree, hcon] using hfree
    have hcon := hcon.imp And.left And.left
    have hkind : cs.kind = .check cs.body := by rcases hcon with hcon | hcon <;> simp only [ConstraintDef.kind, hcon]
    obtain ⟨I, hI, ht⟩ := guided_validated hkind hnone
    exact ⟨I, hI.imp fun u hu => ⟨hu, not_taken_validated hcon hnone⟩, ht⟩
  | @key cs hcon =>
    have hkind : cs.kind = .key cs.isPrimary cs.index cs.deferrable (cs.deferrable && cs.initdeferred) := by
      rcases hcon with hcon | hcon <;> simp only [ConstraintDef.kind, hcon]
    obtain ⟨hnone, hindex, hapart⟩ : t.cons.lookup (cs.keyName hash rv) = none ∧
        t.idxs.lookup (cs.keyName hash rv) = none ∧
        (cs.isPrimary = true → ∀ col ∈ cs.keys, notNullName hash rv col ≠ cs.keyName hash rv) := by
      rcases hcon with hcon | hcon <;> simpa only [AlterTableCmd.NamesFree, hcon] using hfree
    obtain ⟨I, hI, ht⟩ := guided_unique hkind hnone hindex hapart
    exact ⟨I, hI.imp fun u hu => ⟨hu.1, not_taken_key hcon hnone hindex hu.2⟩, ht⟩
  | notNull => exact ⟨_, guided_notNull.imp fun u hu => ⟨hu, id⟩, hfree⟩
  | detach => exact ⟨_, guided_detach.imp fun u hu => ⟨hu, id⟩, trivial⟩

end

/-- Where the names the steps use are free, a shard on which every step was run or skipped has what the statement
asks for, and the statement was not one that PostgreSQL refuses for its name. -/
theorem applied_has_what_was_asked (hash : String → String) (rv : RangeVar)
    (checkColocated : ConstraintDef D → Option String) (cmds : List (AlterTableCmd D)) (steps : List (MigrationStep D))
    (hsteps : alterSteps hash rv checkColocated cmds = .ok steps) (hne : steps ≠ []) (t : Table D)
    (hfree : ∀ cmd ∈ cmds, cmd.NamesFree hash rv t) (attempts : List (List StepLuck)) :
    let s := StepsRun.run ⟨t, steps, false⟩ attempts
    s.applied = true → ∀ cmd ∈ cmds, cmd.Asked s.table ∧ ¬cmd.NameTaken t := by
  intro s happlied
  obtain ⟨cmd, rfl, hcmd⟩ := (alterSteps_planned hsteps).resolve_left hne
  obtain ⟨I, hI, ht⟩ := guided_planned hcmd hne (hfree cmd List.mem_cons_self)
  intro cmd' hmem
  cases List.mem_singleton.mp hmem
  exact (Guided.run (s := ⟨t, steps, false⟩) ⟨I, hI, ht⟩ attempts).2 happlied

/-- `ALTER TABLE t ADD CONSTRAINT c CHECK (...)`, with the number for the condition. -/
def addCheck (body : Nat) : AlterTableCmd Nat := .addConstraint { contype := .check, conname := "c", body }

def addCheckSteps (body : Nat) : List (MigrationStep Nat) :=
  addAndValidate ⟨"", "t"⟩ "c" (.check body) "c" .constraint .constraintValid

theorem applied_has_what_was_asked_of_check :
    let s := StepsRun.run ⟨({} : Table Nat), addCheckSteps 1, false⟩ [[{}, {}, {}], [{}, {}, {}]]
    s.applied = true ∧ ∀ cmd ∈ [addCheck 1], cmd.Asked s.table ∧ ¬cmd.NameTaken ({} : Table Nat) :=
  ⟨by decide +kernel, applied_has_what_was_asked id ⟨"", "t"⟩ (fun _ => none) [addCheck 1] (addCheckSteps 1) rfl nofun {}
    (fun cmd hcmd => by cases List.mem_singleton.mp hcmd; exact rfl) [[{}, {}, {}], [{}, {}, {}]] (by decide +kernel)⟩

/-- The table has a validated constraint of the name with another condition. Both steps are skipped. -/
theorem applied_over_a_taken_name :
    let t : Table Nat := ({} : Table Nat).setCon "c" { kind := .check 0, valid := true }
    let s := StepsRun.run ⟨t, addCheckSteps 1, false⟩ [[{}, {}], [{}, {}]]
    alterSteps id ⟨"", "t"⟩ (fun _ => none) [addCheck 1] = .ok (addCheckSteps 1) ∧ s.applied = true ∧
      s.table.cons.lookup "c" = some { kind := .check 0, valid := true } ∧
      ¬(addCheck 1).Asked s.table ∧ (addCheck 1).NameTaken t := by
  intro t s
  have hc : s.table.cons.lookup "c" = some { kind := .check 0, valid := true } := by decide +kernel
  refine ⟨rfl, by decide +kernel, hc, ?_, by decide +kernel, by decide +kernel⟩
  rintro ⟨n, c, hn, hlookup, hkind, -⟩
  rw [hn (by decide), hc] at hlookup
  cases hlookup
  cases hkind

end PgShard.Migration
