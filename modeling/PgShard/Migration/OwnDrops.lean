import PgShard.Migration.Asked

/-!
# What a failed multistep migration takes away

A step that fails for good drops the constraint it was to validate, by its name, and a build that is made again
drops the invalid index of its name. Where nothing that carries those names awaits its validation at the start,
what is dropped is the migration's own.
-/

namespace PgShard.Migration

variable {D : Type}

/-- Nothing on the table is the migration's yet. -/
structure Table.Untouched (t : Table D) : Prop where
  dropped : t.dropped = []
  cons : ∀ n c, t.cons.lookup n = some c → c.mine = false
  idxs : ∀ n i, t.idxs.lookup n = some i → i.mine = false

section

variable (hash : String → String) (rv : RangeVar)

/-- Nothing that carries a name the steps use awaits its validation, and no not-null constraint does under
another name while something carries the one they use. -/
def AlterTableCmd.NoneAwaiting (t : Table D) : AlterTableCmd D → Prop
  | .addConstraint cs =>
    match cs.contype with
    | .check => ∀ c, t.cons.lookup (cs.validatedName hash rv "check") = some c → c.valid = true
    | .foreign => ∀ c, t.cons.lookup (cs.validatedName hash rv "fkey") = some c → c.valid = true
    | .primary | .unique =>
      (∀ i, t.idxs.lookup (cs.keyName hash rv) = some i → (i.valid || t.partitioned) = true) ∧
        (cs.isPrimary = true → ∀ col ∈ cs.keys, t.Awaits col → t.cons.lookup (notNullName hash rv col) = none)
    | .other => True
  | .setNotNull col => t.Awaits col → t.cons.lookup (notNullName hash rv col) = none
  | _ => True

end

/-- `t₀` is the table at the start. A not-null constraint of the migration's has the name its column gives it. -/
structure Kept (named : String → String) (t₀ t : Table D) : Prop where
  dropped : ∀ d ∈ t.dropped, d.mine = true
  old : ∀ n c₀, t₀.cons.lookup n = some c₀ →
    ∃ c, t.cons.lookup n = some c ∧ c.kind = c₀.kind ∧ (c₀.valid = true → c.valid = true)
  new : ∀ n c, t.cons.lookup n = some c → t₀.cons.lookup n = none →
    c.mine = true ∧ ∀ col, c.kind = .notNull col → n = named col
  oldIndex : ∀ n i, t₀.idxs.lookup n = some i → t.idxs.lookup n = some i
  newIndex : ∀ n i, t.idxs.lookup n = some i → t₀.idxs.lookup n = none → i.mine = true
  partitioned : t.partitioned = t₀.partitioned

/-- No key is attached yet. -/
def Unkeyed (t₀ t : Table D) : Prop :=
  ∀ n c, t.cons.lookup n = some c → t₀.cons.lookup n = none → ∀ p ix d b, c.kind ≠ .key p ix d b

namespace Kept

variable {named : String → String} {t₀ t : Table D} {n : String} (h : Kept named t₀ t)

lemma start (ht : t.Untouched) : Kept named t t where
  dropped d hd := by
    rw [ht.dropped] at hd
    cases hd
  old n c hc := ⟨c, hc, rfl, id⟩
  new n c hc hnone := nomatch hc.symm.trans hnone
  oldIndex n i hi := hi
  newIndex n i hi hnone := nomatch hi.symm.trans hnone
  partitioned := rfl

include h

lemma free (hnone : t.cons.lookup n = none) : t₀.cons.lookup n = none := by
  cases hc : t₀.cons.lookup n with
  | none => rfl
  | some c₀ =>
    obtain ⟨c, hc', -⟩ := h.old n c₀ hc
    exact nomatch hc'.symm.trans hnone

lemma add {kind : ConKind D} {valid : Bool} (hnone : t.cons.lookup n = none)
    (hnamed : ∀ col, kind = .notNull col → n = named col) :
    Kept named t₀ (t.setCon n { kind, valid, mine := true }) := { h with
  old m c₀ hc₀ := by
    obtain ⟨c, hc, hkeep⟩ := h.old m c₀ hc₀
    have hm : m ≠ n := by
      rintro rfl
      exact nomatch hc.symm.trans hnone
    exact ⟨c, (Table.con_setCon_ne hm).trans hc, hkeep⟩
  new m c hc hfree := by
    rcases Table.lookup_of_insert hc with ⟨rfl, rfl⟩ | ⟨-, hc⟩
    · exact ⟨rfl, hnamed⟩
    · exact h.new m c hc hfree }

lemma validate {c : Con D} (hc : t.cons.lookup n = some c) :
    Kept named t₀ (t.setCon n { c with valid := true }) := { h with
  old m c₀ hc₀ := by
    obtain ⟨c', hc', hkind, hvalid⟩ := h.old m c₀ hc₀
    by_cases hm : m = n
    · subst hm
      cases hc.symm.trans hc'
      exact ⟨_, Table.con_setCon, hkind, fun _ => rfl⟩
    · exact ⟨c', (Table.con_setCon_ne hm).trans hc', hkind, hvalid⟩
  new m c' hc' hfree := by
    rcases Table.lookup_of_insert hc' with ⟨rfl, rfl⟩ | ⟨-, hc'⟩
    · exact h.new m c hc hfree
    · exact h.new m c' hc' hfree }

lemma withoutCon {c : Con D} (hc : t.cons.lookup n = some c) (hfree : t₀.cons.lookup n = none) :
    Kept named t₀ (t.withoutCon n c) := { h with
  dropped d hd := by
    rcases List.mem_cons.mp hd with rfl | hd
    · exact (h.new n c hc hfree).1
    · exact h.dropped d hd
  old m c₀ hc₀ := by
    obtain ⟨c', hc', hkeep⟩ := h.old m c₀ hc₀
    have hm : m ≠ n := by
      rintro rfl
      exact nomatch hc₀.symm.trans hfree
    exact ⟨c', (AList.lookup_erase_ne hm).trans hc', hkeep⟩
  new m c' hc' hnone := h.new m c' (Table.lookup_of_erase hc').2 hnone }

lemma dropConstraint (hkey : Unkeyed t₀ t) (hfree : t₀.cons.lookup n = none) :
    Kept named t₀ (t.dropConstraint n) := by
  rcases Table.dropConstraint_cases t n with ⟨-, he⟩ | ⟨c, hc, he | ⟨⟨p, ix, d, b, hkind⟩, -⟩⟩
  · rw [he]
    exact h
  · rw [he]
    exact h.withoutCon hc hfree
  · exact absurd hkind (hkey n c hc hfree p ix d b)

lemma setIndex {i : Index} (hnone : t.idxs.lookup n = none) (hi : i.mine = true) :
    Kept named t₀ (t.setIndex n i) := { h with
  oldIndex m j hj := by
    have hm : m ≠ n := by
      rintro rfl
      exact nomatch (h.oldIndex m j hj).symm.trans hnone
    exact (Table.index_setIndex_ne hm).trans (h.oldIndex m j hj)
  newIndex m j hj hfree := by
    rcases Table.lookup_of_insert hj with ⟨rfl, rfl⟩ | ⟨-, hj⟩
    · exact hi
    · exact h.newIndex m j hj hfree }

lemma eraseIndex (hfree : t₀.idxs.lookup n = none) : Kept named t₀ (t.eraseIndex n) := by
  unfold Table.eraseIndex
  cases hi : t.idxs.lookup n with
  | none => exact h
  | some i =>
    refine ⟨fun d hd => ?_, h.old, h.new, fun m j hj => ?_,
      fun m j hj hnone => h.newIndex m j (Table.lookup_of_erase hj).2 hnone, h.partitioned⟩
    · rcases List.mem_cons.mp hd with rfl | hd
      · exact h.newIndex n i hi hfree
      · exact h.dropped d hd
    · have hm : m ≠ n := by
        rintro rfl
        exact nomatch hj.symm.trans hfree
      exact (AList.lookup_erase_ne hm).trans (h.oldIndex m j hj)

lemma dropInvalidIndex (hold : ∀ i, t₀.idxs.lookup n = some i → (i.valid || t₀.partitioned) = true) :
    Kept named t₀ (t.dropInvalidIndex n) := by
  cases hi₀ : t₀.idxs.lookup n with
  | some i₀ =>
    rw [Table.dropInvalidIndex_eq fun i hi => ?_]
    · exact h
    · cases (h.oldIndex n i₀ hi₀).symm.trans hi
      exact h.partitioned ▸ hold i₀ hi₀
  | none =>
    unfold Table.dropInvalidIndex
    cases t.idxs.lookup n with
    | none => exact h
    | some i =>
      dsimp only
      split
      · exact h
      · exact h.eraseIndex hi₀

end Kept

section

variable {named : String → String} {t₀ t u : Table D} {n col : String} {kind : ConKind D} {rv : RangeVar}

def KeptUnkeyed (named : String → String) (t₀ t : Table D) : Prop := Kept named t₀ t ∧ Unkeyed t₀ t

lemma KeptUnkeyed.add (h : KeptUnkeyed named t₀ t) (hplain : ∀ p ix d b, kind ≠ .key p ix d b)
    (hnamed : ∀ col, kind = .notNull col → n = named col) (hu : t.effect (.addNotValid n kind) = .ok u) :
    KeptUnkeyed named t₀ u := by
  obtain ⟨hnone, rfl⟩ := Table.addNotValid_ok hu
  refine ⟨h.1.add hnone hnamed, fun m c hc hfree => ?_⟩
  rcases Table.lookup_of_insert hc with ⟨rfl, rfl⟩ | ⟨-, hc⟩
  · exact hplain
  · exact h.2 m c hc hfree

lemma KeptUnkeyed.validate (h : KeptUnkeyed named t₀ t) (hu : t.effect (.validate n) = .ok u) :
    KeptUnkeyed named t₀ u := by
  obtain ⟨c, hc, rfl⟩ := Table.validate_ok hu
  refine ⟨h.1.validate hc, fun m c' hc' hfree => ?_⟩
  rcases Table.lookup_of_insert hc' with ⟨rfl, rfl⟩ | ⟨-, hc'⟩
  · exact h.2 m c hc hfree
  · exact h.2 m c' hc' hfree

lemma KeptUnkeyed.drop (h : KeptUnkeyed named t₀ t) (hfree : t₀.cons.lookup n = none)
    (hu : t.Left (.dropConstraint n) u) : KeptUnkeyed named t₀ u := by
  cases hu with
  | nothing | halfway => exact h
  | whole hu =>
    cases hu
    exact ⟨h.1.dropConstraint h.2 hfree, fun m c hc => h.2 m c ((Table.drops_dropConstraint t n).cons m c hc)⟩

/-- The two steps, where the constraint that is validated, and dropped if that fails, is not one of the table's
at the start. `I` is what is known besides once the first step is over. -/
lemma kept_addAndValidate {F I : Table D → Prop} {target : String} {added valid : CheckKind}
    {rest : List (MigrationStep D)} (hplain : ∀ p ix d b, kind ≠ .key p ix d b)
    (hnamed : ∀ col, kind = .notNull col → n = named col) (hskips : ∀ t, t.holds (check rv target added) = true → I t)
    (hadds : ∀ t u : Table D, t.effect (.addNotValid n kind) = .ok u → I u)
    (hkeeps : ∀ t u, I t → t.effect (.validate n) = .ok u → I u) (hfrees : ∀ t, t.cons.lookup n = none → I t)
    (hholds : ∀ t c, Kept named t₀ t → I t → t₀.cons.lookup n = some c → t.holds (check rv target valid) = true)
    (hrest : Guided (Kept named t₀) F rest (KeptUnkeyed named t₀)) :
    Guided (Kept named t₀) F (addAndValidate rv n kind target added valid ++ rest) (KeptUnkeyed named t₀) := by
  refine .step (J := KeptUnkeyed named t₀) (Q := fun t => KeptUnkeyed named t₀ t ∧ I t)
    { skips := fun t ht hskip => ⟨ht, hskips t hskip⟩, lands := fun t u ht hu => ?_ }
    (.step (J := fun t => (KeptUnkeyed named t₀ t ∧ I t) ∧ t₀.cons.lookup n = none) ?_ hrest fun _ ht => ht.1.1)
    fun _ ht => ht.1
  · have hkept := ht.add hplain hnamed hu
    exact ⟨hkept, hkept, hadds t u hu⟩
  · refine
      { skips := fun _ ht _ => ht.1, enters := fun t ht hskip => ⟨ht, ?_⟩, stays := fun _ ht => ht.1
        lands := fun t u ht hu => ?_, undoes := fun t u sql ht hsql hu => ?_ }
    · cases hc : t₀.cons.lookup n with
      | none => rfl
      | some c => exact nomatch (hholds t c ht.1.1 ht.2 hc).symm.trans hskip
    · have hkept := ht.1.1.validate hu
      exact ⟨⟨⟨hkept, hkeeps t u ht.1.2 hu⟩, ht.2⟩, hkept⟩
    · cases hsql
      refine ⟨ht.1.1.drop ht.2 hu, ?_⟩
      cases hu with
      | nothing | halfway => exact ht.1.2
      | whole hu =>
        cases hu
        exact hfrees _ Table.con_dropConstraint

variable {F : Table D → Prop} {rest : List (MigrationStep D)}

lemma kept_check {d : D} (hvalid : ∀ c, t₀.cons.lookup n = some c → c.valid = true)
    (hrest : Guided (Kept named t₀) F rest (KeptUnkeyed named t₀)) :
    Guided (Kept named t₀) F (addAndValidate rv n (.check d) n .constraint .constraintValid ++ rest)
      (KeptUnkeyed named t₀) := by
  refine kept_addAndValidate (I := fun _ => True) nofun nofun (fun _ _ => trivial) (fun _ _ _ => trivial)
    (fun _ _ _ _ => trivial) (fun _ _ => trivial) (fun t c₀ ht _ hc₀ => ?_) hrest
  obtain ⟨c, hc, -, hkeep⟩ := ht.old n c₀ hc₀
  exact (holds_constraintValid rv).mpr ⟨c, hc, hkeep (hvalid c₀ hc₀)⟩

/-- The column has a not-null constraint, unless nothing has the name. -/
def HasOrFree (n col : String) (t : Table D) : Prop :=
  (∃ m c, t.cons.lookup m = some c ∧ c.kind = .notNull col) ∨ t.cons.lookup n = none

lemma HasOrFree.validate (h : HasOrFree n col t) (hu : t.effect (.validate n) = .ok u) : HasOrFree n col u := by
  obtain ⟨c, hc, rfl⟩ := Table.validate_ok hu
  rcases h with ⟨m, c', hc', hkind⟩ | hnone
  · by_cases hm : m = n
    · subst hm
      cases hc.symm.trans hc'
      exact .inl ⟨_, _, Table.con_setCon, hkind⟩
    · exact .inl ⟨m, c', (Table.con_setCon_ne hm).trans hc', hkind⟩
  · exact nomatch hc.symm.trans hnone

/-- Something carried the name at the start, so the steps have added nothing under it. A not-null constraint of
the column is then an old one, and awaits nothing. -/
lemma Kept.valid_of_taken (rv : RangeVar) {c₀ : Con D} (h : Kept named t₀ t) (hadded : HasOrFree (named col) col t)
    (hfree : t₀.Awaits col → t₀.cons.lookup (named col) = none) (hc₀ : t₀.cons.lookup (named col) = some c₀) :
    t.holds (check rv col .notnullValid) = true := by
  rcases hadded with ⟨m, c, hc, hkind⟩ | hnone
  · cases hold : t₀.cons.lookup m with
    | none =>
      rw [← (h.new m c hc hold).2 col hkind, hold] at hc₀
      cases hc₀
    | some c₁ =>
      obtain ⟨c', hc', hkind', hkeep⟩ := h.old m c₁ hold
      cases hc.symm.trans hc'
      have hvalid : c₁.valid = true := by
        by_contra hinvalid
        have hnone := hfree ⟨m, c₁, hold, hkind'.symm.trans hkind, by simpa using hinvalid⟩
        exact nomatch hc₀.symm.trans hnone
      exact (holds_notnullValid rv).mpr ⟨m, c, hc, hkind, hkeep hvalid⟩
  · exact nomatch hc₀.symm.trans (h.free hnone)

lemma kept_notNull (hfree : t₀.Awaits col → t₀.cons.lookup (named col) = none)
    (hrest : Guided (Kept named t₀) F rest (KeptUnkeyed named t₀)) :
    Guided (Kept named t₀) F (addAndValidate rv (named col) (.notNull col) col .notnull .notnullValid ++ rest)
      (KeptUnkeyed named t₀) := by
  refine kept_addAndValidate (I := HasOrFree (named col) col) nofun (fun _ h => by cases h; rfl)
    (fun t hskip => .inl ((holds_notnull rv).mp hskip)) (fun t u hu => ?_) (fun t u => HasOrFree.validate)
    (fun t hnone => .inr hnone) (fun t c₀ ht hadded hc₀ => ht.valid_of_taken rv hadded hfree hc₀) hrest
  have hu : t.addNotValid (named col) (.notNull col) = .ok u := hu
  obtain ⟨-, rfl⟩ := Table.addNotValid_ok hu
  exact .inl ⟨_, _, Table.con_setCon, rfl⟩

lemma KeptUnkeyed.create {ix : IndexDef} {valid : Bool} (h : KeptUnkeyed named t₀ t)
    (hu : t.createUniqueIndex n ix valid = .ok u) : KeptUnkeyed named t₀ u := by
  obtain ⟨hnone, -, rfl⟩ := Table.createUniqueIndex_ok hu
  exact ⟨h.1.setIndex hnone rfl, h.2⟩

lemma kept_key {ix : IndexDef} {primary deferrable initdeferred : Bool}
    (hindex : ∀ i, t₀.idxs.lookup n = some i → (i.valid || t₀.partitioned) = true) :
    Guided (Kept named t₀) (fun _ => True)
      [({ sql := .createUniqueIndex n ix, concurrent := true, index := n, skip := check rv n .indexValid } : MigrationStep D),
        { sql := .addUsingIndex n primary deferrable initdeferred, skip := check rv n .constraint }]
      (KeptUnkeyed named t₀) := by
  refine .step (J := KeptUnkeyed named t₀) (Q := Kept named t₀) ?_
    (.step (J := Kept named t₀) (Q := Kept named t₀) { lands := fun t u ht hu => ?_ }
      (.done (fun _ _ => trivial) fun _ ht => ht) fun _ ht => ht) fun _ ht => ht.1
  · refine
      { skips := fun _ ht _ => ht.1, drops := fun t ht _ => ?_, halves := fun t ht => ?_, lands := fun t u ht hu => ?_ }
    · refine ⟨ht.1.dropInvalidIndex hindex, ?_⟩
      simpa only [Unkeyed, Table.cons_dropInvalidIndex] using ht.2
    · simp only [Table.halfway]
      cases hu : t.createUniqueIndex n ix false with
      | error code => exact ht
      | ok u => exact ht.create hu
    · exact ⟨ht.create hu, (ht.create hu).1⟩
  · obtain ⟨hnone, i, ix', -, -, rfl⟩ := Table.addUsingIndex_ok hu
    exact ⟨ht.add hnone (by simp), ht.add hnone (by simp)⟩

lemma kept_done : Guided (Kept named t₀) (fun _ => True) [] (KeptUnkeyed named t₀) :=
  .done (fun _ _ => trivial) fun _ ht => ht.1

lemma kept_detach {part : RangeVar} :
    Guided (Kept named t₀) (fun _ => True) (detachSteps rv part : List (MigrationStep D)) (KeptUnkeyed named t₀) := by
  have hparts : ∀ {t : Table D} (parts), KeptUnkeyed named t₀ t → KeptUnkeyed named t₀ { t with parts := parts } :=
    fun _ ht => ⟨{ ht.1 with }, ht.2⟩
  refine .step (J := KeptUnkeyed named t₀) (Q := KeptUnkeyed named t₀)
    { halves := fun t ht => ?_, lands := fun t u ht hu => ?_ }
    (.step (J := KeptUnkeyed named t₀) (Q := KeptUnkeyed named t₀) { lands := fun t u ht hu => ?_ } kept_done
      fun _ ht => ht.1) fun _ ht => ht.1
  · simp only [Table.halfway]
    split
    · exact hparts _ ht
    · exact ht
  · rw [Table.detach_ok (.inl rfl) hu]
    exact ⟨hparts _ ht, hparts _ ht⟩
  · rw [Table.detach_ok (.inr rfl) hu]
    exact ⟨hparts _ ht, hparts _ ht⟩

end

section

variable {hash : String → String} {rv : RangeVar} {t : Table D} {cs : ConstraintDef D}
  {checkColocated : ConstraintDef D → Option String} {steps : List (MigrationStep D)}

lemma kept_unique (hindex : ∀ i, t.idxs.lookup (cs.keyName hash rv) = some i → (i.valid || t.partitioned) = true)
    (hcols : cs.isPrimary = true → ∀ col ∈ cs.keys, t.Awaits col → t.cons.lookup (notNullName hash rv col) = none) :
    Guided (Kept (notNullName hash rv) t) (fun _ => True) (uniqueSteps hash rv cs)
      (KeptUnkeyed (notNullName hash rv) t) := by
  unfold uniqueSteps
  split
  · rename_i hprimary
    exact Guided.flatMap (kept_key hindex) cs.keys fun col hcol rest hrest => kept_notNull (hcols hprimary col hcol) hrest
  · exact kept_key hindex

lemma kept_planned {cmd : AlterTableCmd D} (hsteps : Planned hash rv cmd steps) (hnone : cmd.NoneAwaiting hash rv t) :
    Guided (Kept (notNullName hash rv) t) (fun _ => True) steps (KeptUnkeyed (notNullName hash rv) t) := by
  cases hsteps with
  | none => exact kept_done
  | validated hcon =>
    refine kept_check ?_ kept_done
    rcases hcon with ⟨hcon, rfl⟩ | ⟨hcon, rfl⟩ <;> simpa only [AlterTableCmd.NoneAwaiting, hcon] using hnone
  | key hcon =>
    rcases hcon with hcon | hcon <;> simp only [AlterTableCmd.NoneAwaiting, hcon] at hnone <;>
      exact kept_unique hnone.1 hnone.2
  | notNull => exact kept_notNull hnone kept_done
  | detach => exact kept_detach

end

/-- Where nothing that carries a name the steps use awaits its validation, every constraint and index that is
dropped is the migration's own, and those the table had at the start are still there. -/
theorem drops_only_its_own (hash : String → String) (rv : RangeVar)
    (checkColocated : ConstraintDef D → Option String) (cmds : List (AlterTableCmd D)) (steps : List (MigrationStep D))
    (hsteps : alterSteps hash rv checkColocated cmds = .ok steps) (t : Table D) (ht : t.Untouched)
    (hnone : ∀ cmd ∈ cmds, cmd.NoneAwaiting hash rv t) (attempts : List (List StepLuck)) :
    let u := (StepsRun.run ⟨t, steps, false⟩ attempts).table
    (∀ d ∈ u.dropped, d.mine = true) ∧
      (∀ n c, t.cons.lookup n = some c → ∃ c', u.cons.lookup n = some c' ∧ c'.kind = c.kind) ∧
      ∀ n i, t.idxs.lookup n = some i → u.idxs.lookup n = some i := by
  intro u
  have hstart : KeptUnkeyed (notNullName hash rv) t t := ⟨.start ht, fun n c hc hfree => nomatch hc.symm.trans hfree⟩
  have hguided : Guided (Kept (notNullName hash rv) t) (fun _ => True) steps (KeptUnkeyed (notNullName hash rv) t) := by
    rcases alterSteps_planned hsteps with rfl | ⟨cmd, rfl, hcmd⟩
    · exact kept_done
    · exact kept_planned hcmd (hnone cmd List.mem_cons_self)
  have hkept := (Guided.run (s := ⟨t, steps, false⟩) ⟨_, hguided, hstart⟩ attempts).1
  refine ⟨hkept.dropped, fun n c hc => ?_, hkept.oldIndex⟩
  obtain ⟨c', hc', hkind, -⟩ := hkept.old n c hc
  exact ⟨c', hc', hkind⟩

/-- The rows do not satisfy a constraint. -/
def violated : StepLuck := { err := some { text := "", code := ⟨"23", "514"⟩ } }

theorem drops_only_its_own_when_violated :
    let u := (StepsRun.run ⟨({} : Table Nat), addCheckSteps 1, false⟩ [[{}, {}, {}], [{}, {}, violated, {}, {}]]).table
    u.dropped = [.constraint "c" true] ∧ (∀ d ∈ u.dropped, d.mine = true) ∧
      (∀ n c, ({} : Table Nat).cons.lookup n = some c → ∃ c', u.cons.lookup n = some c' ∧ c'.kind = c.kind) ∧
      ∀ n i, ({} : Table Nat).idxs.lookup n = some i → u.idxs.lookup n = some i :=
  ⟨by decide +kernel, drops_only_its_own id ⟨"", "t"⟩ (fun _ => none) [addCheck 1] (addCheckSteps 1) rfl {}
    ⟨rfl, nofun, nofun⟩ (fun cmd hcmd => by cases List.mem_singleton.mp hcmd; exact nofun)
    [[{}, {}, {}], [{}, {}, violated, {}, {}]]⟩

/-- The table has a constraint of the name that was never validated. The step that would add one is skipped, the
rows do not satisfy the old one, and the old one is dropped. -/
theorem drops_the_old_constraint :
    let t : Table Nat := ({} : Table Nat).setCon "c" { kind := .check 0, valid := false }
    let s := StepsRun.run ⟨t, addCheckSteps 1, false⟩ [[{}, {}], [{}, {}, violated, {}, {}]]
    alterSteps id ⟨"", "t"⟩ (fun _ => none) [addCheck 1] = .ok (addCheckSteps 1) ∧ s.failed = true ∧
      s.table.dropped = [.constraint "c" false] ∧ t.cons.lookup "c" = some { kind := .check 0, valid := false } ∧
      s.table.cons.lookup "c" = none := by
  intro t s
  exact ⟨rfl, by decide +kernel⟩

end PgShard.Migration
