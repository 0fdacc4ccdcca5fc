import PgShard.Migration.Steps

/-!
# Reasoning about the steps of a shard

`StepSpec` asks of a step what has to be shown of its statements one by one; `runStep` is walked through once.
-/

namespace PgShard.Migration

open Interleave

variable {D : Type}

/-- What a statement may have left on the table, whatever it answered. -/
inductive Table.Left (t : Table D) (sql : Sql D) : Table D → Prop
  | nothing : Left t sql t
  | halfway : Left t sql (t.halfway sql)
  | whole {u : Table D} (hu : t.effect sql = .ok u) : Left t sql u

namespace Table

variable {t : Table D} {x : StepLuck} {sql : Sql D}

lemma left_after : t.Left sql (t.after x sql) := by
  unfold after
  cases x.reach with
  | nothing => exact .nothing
  | halfway => exact .halfway
  | whole =>
    cases hu : t.effect sql with
    | error code => exact .nothing
    | ok u => exact .whole hu

lemma left_execSql : t.Left sql (t.execSql x sql).2 := by
  unfold execSql
  cases x.err with
  | some e => exact left_after
  | none =>
    cases hu : t.effect sql with
    | error code => exact .nothing
    | ok u => exact .whole hu

lemma effect_of_execSql (h : (t.execSql x sql).1 = none) : t.effect sql = .ok (t.execSql x sql).2 := by
  unfold execSql at h ⊢
  cases hx : x.err with
  | some e => simp [hx] at h
  | none =>
    cases hu : t.effect sql with
    | error code => simp [hx, hu] at h
    | ok u => rfl

lemma exec_drop (name : String) :
    (exec x (.dropInvalidIndex name) t).2 = t ∨ (exec x (.dropInvalidIndex name) t).2 = t.dropInvalidIndex name := by
  unfold exec
  cases x.err with
  | some e => by_cases hx : x.reach = .whole <;> simp [hx]
  | none => exact .inr rfl

end Table

/-- `I` holds while the shard is on the step, `J` of it while an attempt works on the shard, and `Q` once the
step was run or skipped. -/
structure StepSpec (st : MigrationStep D) (I J Q : Table D → Prop) : Prop where
  skips : ∀ t, I t → t.holds st.skip = true → Q t := by exact fun _ ht _ => ht
  enters : ∀ t, I t → t.holds st.skip = false → J t := by exact fun _ ht _ => ht
  stays : ∀ t, J t → I t := by exact fun _ ht => ht
  drops : ∀ t, J t → st.index ≠ "" → J (t.dropInvalidIndex st.index) := by exact fun _ _ hidx => absurd rfl hidx
  halves : ∀ t, J t → J (t.halfway st.sql) := by exact fun _ ht => ht
  lands : ∀ t u, J t → t.effect st.sql = .ok u → J u ∧ Q u
  undoes : ∀ t u sql, J t → st.onFail = some sql → t.Left sql u → I u := by exact fun _ _ _ _ hsql _ => nomatch hsql

/-- The step was run or skipped, or the shard is still on it. -/
def Concluded (I Q : Table D → Prop) : Except Err ShardState → Table D → Prop
  | .ok _, t => Q t
  | .error _, t => I t

namespace StepSpec

variable {st : MigrationStep D} {I J Q : Table D → Prop} {t : Table D} (h : StepSpec st I J Q)
  {A : Type} {P : A → Table D → Prop}

include h

lemma left {u : Table D} (ht : J t) (hu : t.Left st.sql u) : J u := by
  cases hu with
  | nothing => exact ht
  | halfway => exact h.halves t ht
  | whole hu => exact (h.lands t _ ht hu).1

lemma leads_drop {f : Option Err → StepProg D A} (ht : J t) (hidx : st.index ≠ "")
    (hf : ∀ r u, J u → (f r).Leads Table.exec I P u) :
    (onShard (.dropInvalidIndex st.index) >>= f).Leads Table.exec I P t := by
  apply Task.Leads.ask
  intro x
  have hu : J (Table.exec x (.dropInvalidIndex st.index) t).2 := by
    rcases Table.exec_drop (t := t) (x := x) st.index with hsame | hdrop
    · rw [hsame]
      exact ht
    · rw [hdrop]
      exact h.drops t ht hidx
  exact ⟨h.stays _ hu, hf _ _ hu⟩

lemma leads_ctxErr {f : Bool → StepProg D A} (ht : J t) (hf : ∀ b, (f b).Leads Table.exec I P t) :
    (onShard .ctxErr >>= f).Leads Table.exec I P t :=
  Task.Leads.ask fun _ => ⟨h.stays t ht, hf _⟩

lemma leads_runSql (ht : J t) : (runSql st).Leads Table.exec I (fun err u => J u ∧ (err = none → Q u)) t := by
  have hexec : ∀ x, I (t.execSql x st.sql).2 ∧ J (t.execSql x st.sql).2 ∧
      ((t.execSql x st.sql).1 = none → Q (t.execSql x st.sql).2) := by
    intro x
    have hu : J (t.execSql x st.sql).2 := h.left ht Table.left_execSql
    exact ⟨h.stays _ hu, hu, fun hr => (h.lands t _ ht (Table.effect_of_execSql hr)).2⟩
  unfold runSql
  split
  · exact hexec
  · intro x
    by_cases hout : st.sql.outside = true
    · simp only [Table.exec, hout, if_true]
      exact ⟨h.stays t ht, ht, nofun⟩
    · simp only [Table.exec, hout]
      exact hexec x

lemma leads_rebuild {err : Option Err} (hidx : st.index ≠ "") (ht : J t) (hQ : err = none → Q t) :
    (rebuild st err).Leads Table.exec I (fun err u => J u ∧ (err = none → Q u)) t := by
  cases err with
  | none => exact ⟨ht, hQ⟩
  | some e =>
    simp only [rebuild]
    split
    · exact ⟨ht, hQ⟩
    · apply h.leads_ctxErr ht
      intro cancelled
      cases cancelled with
      | true => exact ⟨ht, hQ⟩
      | false =>
        apply h.leads_drop ht hidx
        intro r u hu
        cases r with
        | some _ => exact ⟨hu, nofun⟩
        | none => exact h.leads_runSql hu

lemma leads_sweepIndex {err : Option Err} (hidx : st.index ≠ "") (ht : J t) (hQ : err = none → Q t) :
    (sweepIndex st err).Leads Table.exec I (fun err u => J u ∧ (err = none → Q u)) t := by
  cases err with
  | none => exact ⟨ht, hQ⟩
  | some e =>
    apply h.leads_ctxErr ht
    intro cancelled
    cases cancelled with
    | true => exact ⟨ht, hQ⟩
    | false => exact h.leads_drop ht hidx fun _ u hu => ⟨hu, nofun⟩

lemma leads_conclude {err : Option Err} (ht : J t) (hQ : err = none → Q t) :
    (conclude st err).Leads Table.exec I (Concluded I Q) t := by
  cases err with
  | none => exact hQ rfl
  | some e =>
    simp only [conclude]
    cases hsql : st.onFail with
    | none => exact h.stays t ht
    | some sql =>
      dsimp only
      split
      · exact h.stays t ht
      · apply h.leads_ctxErr ht
        intro cancelled
        cases cancelled with
        | true => exact h.stays t ht
        | false =>
          apply Task.Leads.ask
          intro x
          have hu := h.undoes t _ sql ht hsql (Table.left_execSql (x := x))
          exact ⟨hu, hu⟩

lemma leads_runOrBuild (ht : J t) : (runOrBuild st).Leads Table.exec I (Concluded I Q) t := by
  unfold runOrBuild
  split
  · rename_i hidx
    apply h.leads_drop ht hidx
    intro r u hu
    cases r with
    | some e => exact h.stays u hu
    | none =>
      refine ((h.leads_runSql hu).imp fun err v hv => ?_).bind
      refine ((h.leads_rebuild hidx hv.1 hv.2).imp fun err v hv => ?_).bind
      refine ((h.leads_sweepIndex hidx hv.1 hv.2).imp fun err v hv => ?_).bind
      exact h.leads_conclude hv.1 hv.2
  · exact ((h.leads_runSql ht).imp fun err u hu => h.leads_conclude hu.1 hu.2).bind

lemma leads_runStep (ht : I t) : (runStep st).Leads Table.exec I (Concluded I Q) t := by
  apply Task.Leads.ask
  rintro ⟨err, _, _⟩
  refine ⟨ht, ?_⟩
  cases err with
  | some e => exact ht
  | none =>
    apply Task.Leads.ask
    rintro ⟨err, _, _⟩
    cases err with
    | some e => exact ⟨ht, ht⟩
    | none =>
      refine ⟨ht, ?_⟩
      simp only [Table.exec]
      cases hskip : t.holds st.skip with
      | true => exact h.skips t ht hskip
      | false => exact h.leads_runOrBuild (h.enters t ht hskip)

end StepSpec

/-- Invariants for the steps one after the other: `G` holds all along, `F` after the last. -/
inductive Guided (G F : Table D → Prop) : List (MigrationStep D) → (Table D → Prop) → Prop
  | done {I : Table D → Prop} (hF : ∀ t, I t → F t) (hG : ∀ t, I t → G t := by exact fun _ _ => trivial) : Guided G F [] I
  | step {st : MigrationStep D} {rest : List (MigrationStep D)} {I J Q : Table D → Prop} (hspec : StepSpec st I J Q)
      (hrest : Guided G F rest Q) (hG : ∀ t, I t → G t := by exact fun _ _ => trivial) : Guided G F (st :: rest) I

namespace Guided

variable {G F I : Table D → Prop} {s : StepsRun D}

lemma always {left : List (MigrationStep D)} (h : Guided G F left I) {t : Table D} (ht : I t) : G t := by
  cases h with
  | done _ hG => exact hG t ht
  | step _ _ hG => exact hG t ht

lemma attempt (h : ∃ I, Guided G F s.left I ∧ I s.table) (luck : List StepLuck) :
    ∃ I, Guided G F (s.attempt luck).left I ∧ I (s.attempt luck).table := by
  obtain ⟨table, left, failed⟩ := s
  obtain ⟨I, hguided, ht⟩ := h
  cases hguided with
  | done hF hG => exact ⟨I, by cases failed <;> exact ⟨.done hF hG, ht⟩⟩
  | step hspec hrest hG =>
    rename_i st rest J Q
    cases failed with
    | true => exact ⟨I, .step hspec hrest hG, ht⟩
    | false =>
      obtain ⟨hcut, hend⟩ := (hspec.leads_runStep ht).play ht luck
      simp only [StepsRun.attempt]
      cases hplay : (runStep st).play Table.exec luck table with
      | mk r t =>
        rw [hplay] at hcut hend
        cases r with
        | none => exact ⟨I, .step hspec hrest hG, hcut rfl⟩
        | some r =>
          have hr := hend r rfl
          cases r with
          | ok state => exact ⟨Q, hrest, hr⟩
          | error e => exact ⟨I, .step hspec hrest hG, hr⟩

/-- Over a whole run. -/
lemma run (h : ∃ I, Guided G F s.left I ∧ I s.table) (attempts : List (List StepLuck)) :
    G (s.run attempts).table ∧ ((s.run attempts).applied = true → F (s.run attempts).table) := by
  induction attempts generalizing s with
  | nil =>
    obtain ⟨I, hguided, ht⟩ := h
    refine ⟨hguided.always ht, fun happlied => ?_⟩
    obtain ⟨table, left, failed⟩ := s
    cases hguided with
    | done hF _ => exact hF table ht
    | step _ _ _ => cases happlied
  | cons luck attempts ih => exact ih (attempt h luck)

lemma imp {F' : Table D → Prop} {left : List (MigrationStep D)} (h : Guided G F left I)
    (himp : ∀ t, F t → F' t) : Guided G F' left I := by
  induction h with
  | done hF hG => exact .done (fun t ht => himp t (hF t ht)) hG
  | step hspec _ hG ih => exact .step hspec ih hG

/-- The same steps for one thing after another. -/
lemma flatMap {A : Type} {steps : A → List (MigrationStep D)} {rest : List (MigrationStep D)}
    (hrest : Guided G F rest I) (xs : List A)
    (hsteps : ∀ x ∈ xs, ∀ rest, Guided G F rest I → Guided G F (steps x ++ rest) I) :
    Guided G F (xs.flatMap steps ++ rest) I := by
  induction xs with
  | nil => exact hrest
  | cons x xs ih =>
    rw [List.flatMap_cons, List.append_assoc]
    exact hsteps x List.mem_cons_self _ (ih fun y hy => hsteps y (List.mem_cons_of_mem x hy))

end Guided

end PgShard.Migration
