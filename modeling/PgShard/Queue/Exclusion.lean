import PgShard.Queue.Rule

/-!
# No two conflicting operations work at a time

An operation that is not just cleaning up begins to work by a start, which found nothing of what it conflicts with
started. Whatever else happens to its row, it holds off no more than before.
-/

namespace PgShard.Queue

open Sql

variable {id : Uuid} {o : Operation} {w w' : Workflow} {f : Workflow → Option Workflow}

def Migration.working (id : Uuid) (m : Migration) : Option Operation := (m.operation id).filter (·.started.holds)

/-- The row of a workflow that has started, unless it only cleans up after a cancel. -/
def Workflow.working (id : Uuid) (w : Workflow) : Option Operation :=
  if w.stage = some .cancelling then none else (w.operation id).filter (·.started.holds)

lemma Migration.working_eq {m : Migration} (h : m.working id = some o) :
    m.operation id = some o ∧ m.state = .running := by
  obtain ⟨ho, hstarted⟩ := Option.filter_eq_some_iff.mp h
  obtain ⟨-, rfl⟩ := Option.ite_some_none_eq_some.mp ho
  exact ⟨ho, by simpa using hstarted⟩

/-- A copy has started when it is past its first stages; a placement has when it also runs or is paused. -/
structure Workflow.Works (w : Workflow) : Prop where
  stage : w.stage ≠ some .cancelling
  active : w.active = true
  copy : w.kind.copies = true → w.past [.provisioning, .readyForCopy] = true
  placement : w.kind.copies = false → w.past [.preparing] = true ∧ (w.state = .running ∨ w.state = .paused)

def Workflow.row (id : Uuid) (w : Workflow) : Operation :=
  if w.kind.copies then w.copyOperation w.kind.operation id else w.placementOperation id

lemma Workflow.operation_eq (w : Workflow) (id : Uuid) :
    w.operation id = if w.unfinished.holds then some (w.row id) else none := by
  unfold operation row
  cases w.kind <;> rfl

lemma Workflow.started_row (hstage : w.stage ≠ some .cancelling) :
    (w.row id).started.holds = true ↔ (w.kind.copies = true → w.past [.provisioning, .readyForCopy] = true) ∧
      (w.kind.copies = false → w.past [.preparing] = true ∧ (w.state = .running ∨ w.state = .paused)) := by
  unfold row
  cases w.kind.copies with
  | true => simp [copyOperation, copyStarted]
  | false => simp [placementOperation, placementStarted_eq, hstage]

lemma Workflow.working_iff : w.working id = some o ↔ w.Works ∧ o = w.row id := by
  unfold working
  rw [operation_eq, unfinished_holds]
  by_cases hstage : w.stage = some .cancelling
  · rw [if_pos hstage]
    exact ⟨nofun, fun h => absurd hstage h.1.stage⟩
  · rw [if_neg hstage]
    cases hactive : w.active with
    | false =>
      simp only [hstage, decide_false, Bool.or_false, Bool.false_eq_true, if_false]
      exact ⟨nofun, fun h => absurd h.1.active (by simp [hactive])⟩
    | true =>
      simp only [Bool.true_or, if_true, Option.filter_eq_some_iff, Option.some.injEq]
      constructor
      · rintro ⟨rfl, hs⟩
        obtain ⟨hcopy, hplace⟩ := (started_row hstage).mp hs
        exact ⟨⟨hstage, hactive, hcopy, hplace⟩, rfl⟩
      · rintro ⟨hw, rfl⟩
        exact ⟨rfl, (started_row hstage).mpr ⟨hw.copy, hw.placement⟩⟩

/-! ### What a change of a row can do -/

/-- A placement that is past its first stage runs, or was paused while it ran. -/
def Workflow.Fit (w : Workflow) : Prop :=
  w.kind.copies = false → w.past [.preparing] = true →
    w.state ≠ .pending ∧ w.state ≠ .provisioning ∧ (w.state = .paused → w.pausedFrom = some .running)

/-- A change that starts nothing. -/
structure Calm (w w' : Workflow) : Prop where
  kind : w'.kind = w.kind
  database : w'.database = w.database
  works : w'.Works → w.Works
  retiring : w'.Works → w.stage = some .retiring → w'.stage = some .retiring

lemma Calm.row (h : Calm w w') (hw : w'.Works) (id : Uuid) : Tame (w.row id) (w'.row id) := by
  unfold Workflow.row
  rw [h.kind]
  cases w.kind.copies with
  | true => exact {}
  | false =>
    exact {
      databases := congrArg (fun d => some (Option.toList d)) h.database
      ddlHoldEnds := fun hends => decide_eq_true (h.retiring hw (of_decide_eq_true hends)) }

/-- A workflow that has ended or is cancelled does not work. -/
lemma Calm.of_ended (hkind : w'.kind = w.kind) (hdb : w'.database = w.database) (h : ¬w'.Works) : Calm w w' :=
  ⟨hkind, hdb, fun hw => absurd hw h, fun hw => absurd hw h⟩

namespace Workflow

variable {w w' : Workflow}

lemma calm_pause (hfit : w.Fit) (h : w.pause = some w') : Calm w w' ∧ w'.Fit := by
  obtain ⟨hcan, rfl⟩ := Option.ite_some_none_eq_some.mp h
  have hstate : w.state = .pending ∨ w.state = .running := by simpa using hcan.1
  have hpast : w.kind.copies = false → w.past [.preparing] = true → w.state = .running :=
    fun hk hp => hstate.resolve_left (hfit hk hp).1
  refine ⟨⟨rfl, rfl, fun hw => ?_, fun _ hr => hr⟩, fun hk hp => ?_⟩
  · refine ⟨hw.stage, ?_, hw.copy, fun hk => ?_⟩
    · rcases hstate with hs | hs <;> simp [active, hs]
    · exact ⟨(hw.placement hk).1, .inl (hpast hk (hw.placement hk).1)⟩
  · exact ⟨nofun, nofun, fun _ => congrArg some (hpast hk hp)⟩

lemma calm_resume (hfit : w.Fit) (h : w.resume = some w') : Calm w w' ∧ w'.Fit := by
  obtain ⟨hpaused, rfl⟩ := Option.ite_some_none_eq_some.mp h
  refine ⟨⟨rfl, rfl, fun hw => ?_, fun _ hr => hr⟩, fun hk hp => ?_⟩
  · exact ⟨hw.stage, by simp [active, hpaused], hw.copy, fun hk => ⟨(hw.placement hk).1, .inr hpaused⟩⟩
  · have hfrom := (hfit hk hp).2.2 hpaused
    simp [hfrom]

/-- A workflow whose new state is a last one neither works nor has to fit. -/
lemma calm_ended (hkind : w'.kind = w.kind) (hdb : w'.database = w.database)
    (hstate : w'.state = .completed ∨ w'.state = .failed ∨ w'.state = .cancelled) : Calm w w' ∧ w'.Fit := by
  refine ⟨.of_ended hkind hdb fun hw => ?_, fun _ _ => ?_⟩
  · have hactive := hw.active
    rcases hstate with hs | hs | hs <;> simp [active, hs] at hactive
  · rcases hstate with hs | hs | hs <;> simp [hs]

lemma calm_cancel (h : w.cancel = some w') : Calm w w' ∧ w'.Fit := by
  obtain ⟨-, rfl⟩ := Option.ite_some_none_eq_some.mp h
  exact calm_ended rfl rfl (.inr (.inr rfl))

lemma calm_cancelPlacement (h : w.cancelPlacement = some w') : Calm w w' ∧ w'.Fit := by
  obtain ⟨-, rfl⟩ := Option.ite_some_none_eq_some.mp h
  exact calm_ended rfl rfl (.inr (.inr rfl))

lemma calm_removeSet {sourceGone : Bool} (h : w.removeSet sourceGone = some w') : Calm w w' ∧ w'.Fit := by
  obtain ⟨-, h⟩ := Option.ite_none_right_eq_some.mp h
  split at h <;> cases h <;> exact calm_ended rfl rfl (.inr (.inr rfl))

lemma calm_finish {state : WorkflowState} {stage : Stage} (h : w.finish state stage = some w') :
    Calm w w' ∧ w'.Fit := by
  obtain ⟨hcan, rfl⟩ := Option.ite_some_none_eq_some.mp h
  exact calm_ended rfl rfl (by simpa using hcan.2.1)

lemma calm_targetsReady (h : w.targetsReady = some w') : Calm w w' ∧ w'.Fit := by
  obtain ⟨hcan, rfl⟩ := Option.ite_some_none_eq_some.mp h
  refine ⟨.of_ended rfl rfl fun hw => ?_, fun hk => ?_⟩
  · have hpast := hw.copy hcan.1
    simp [past] at hpast
  · rw [hcan.1] at hk
    cases hk

lemma calm_saveWaiting {e : String} (h : w.saveWaiting e = some w') : Calm w w' ∧ w'.Fit := by
  obtain ⟨-, rfl⟩ := Option.ite_some_none_eq_some.mp h
  cases hk : w.kind.copies with
  | true =>
    refine ⟨⟨rfl, rfl, fun hw => ⟨hw.stage, hw.active, hw.copy, ?_⟩, fun _ hr => hr⟩, ?_⟩
    · rw [hk]
      nofun
    · intro hno
      rw [show w.kind.copies = false from hno] at hk
      cases hk
  | false =>
    refine ⟨.of_ended rfl rfl fun hw => ?_, fun _ hp => ?_⟩
    · have hpast := (hw.placement hk).1
      simp [past] at hpast
    · simp [past] at hp

/-- The stages a pass goes on from are those of a workflow at work. -/
lemma next_past {s next : Stage} {kind : WorkflowKind} (h : next ∈ s.next kind) :
    s ≠ .cancelling ∧ s ≠ .retiring ∧ (kind.copies = true → s ∉ [Stage.provisioning, .readyForCopy]) ∧
      (kind.copies = false → s ∉ [Stage.preparing]) := by
  cases kind <;> cases s <;> first | decide | cases h

lemma calm_advance {next : Stage} (h : w.advance next = some w') : Calm w w' ∧ w'.Fit := by
  unfold advance at h
  split at h
  · rename_i s hs
    obtain ⟨hcan, rfl⟩ := Option.ite_some_none_eq_some.mp h
    obtain ⟨hcancel, hretiring, hcopy, hplace⟩ := next_past hcan.2
    refine ⟨⟨rfl, rfl, fun hw => ⟨?_, hw.active, fun hk => ?_, fun hk => ⟨?_, .inl hcan.1⟩⟩, fun _ hr => ?_⟩,
      fun _ _ => ?_⟩
    · rw [hs]
      exact fun h => hcancel (Option.some.inj h)
    · simp only [past, hs]
      exact decide_eq_true (hcopy hk)
    · simp only [past, hs]
      exact decide_eq_true (hplace hk)
    · exact absurd (Option.some.inj (hs.symm.trans hr)) hretiring
    · simp [hcan.1]
  · cases h

/-- What a start finds: the workflow has work left, and has not started. -/
lemma waiting_spec (h : w.waiting = true) (id : Uuid) :
    w.active = true ∧ w.stage ≠ some .retiring ∧ (w.row id).started.holds = false := by
  unfold waiting at h
  cases hk : w.kind.copies with
  | true =>
    simp only [hk, if_true, decide_eq_true_eq] at h
    simp [active, row, copyOperation, copyStarted, past, hk, h.1, h.2]
  | false =>
    simp only [hk, Bool.false_eq_true, if_false, decide_eq_true_eq] at h
    obtain ⟨hstate, hpast⟩ := h
    have hactive : w.active = true := by
      rcases List.mem_pair.mp hstate with hs | hs <;> simp [active, hs]
    refine ⟨hactive, fun hs => hpast ?_, ?_⟩
    · simp [past, hs]
    · simp [row, placementOperation, placementStarted_eq, hk, hpast]

/-- A start keeps what the rule reads of the operation. -/
lemma start_spec (h : w.start = some w') :
    w.waiting = true ∧ w'.Fit ∧ w'.kind = w.kind ∧ ∀ id, Tame (w.row id) (w'.row id) := by
  obtain ⟨hwait, rfl⟩ := Option.ite_some_none_eq_some.mp h
  refine ⟨hwait, fun _ _ => ⟨nofun, nofun, nofun⟩, rfl, fun id => ?_⟩
  unfold row
  cases hk : w.kind.copies with
  | true => exact {}
  | false =>
    exact { ddlHoldEnds := fun hends => absurd (of_decide_eq_true hends) (waiting_spec hwait id).2.1 }

end Workflow

namespace Catalog

variable {c c' : Catalog}

/-- The operation a key stands for, while it works. -/
def working (c : Catalog) : Key → Option Operation
  | .ddl id => (c.migrations.lookup id).bind (·.working id)
  | .workflow id => (c.workflows.lookup id).bind (·.working id)

structure Inv (c : Catalog) : Prop where
  exclusive : ∀ k k' a b, k ≠ k' → c.working k = some a → c.working k' = some b → (operationsConflict a b).holds = false
  fit : ∀ id w, c.workflows.lookup id = some w → w.Fit

lemma working_operation {k : Key} (h : c.working k = some o) : c.operation k = some o ∧ o.started.holds = true := by
  cases k with
  | ddl id =>
    obtain ⟨m, hm, ho⟩ := Option.bind_eq_some_iff.mp h
    obtain ⟨hop, hstarted⟩ := Option.filter_eq_some_iff.mp ho
    exact ⟨Option.bind_eq_some_iff.mpr ⟨m, hm, hop⟩, hstarted⟩
  | workflow id =>
    obtain ⟨w, hw, ho⟩ := Option.bind_eq_some_iff.mp h
    obtain ⟨-, ho⟩ := Option.ite_none_left_eq_some.mp ho
    obtain ⟨hop, hstarted⟩ := Option.filter_eq_some_iff.mp ho
    exact ⟨Option.bind_eq_some_iff.mpr ⟨w, hw, hop⟩, hstarted⟩

/-- Nothing new works. -/
lemma Inv.calm (h : c.Inv) (hfit : ∀ id w, c'.workflows.lookup id = some w → w.Fit)
    (hcalm : ∀ k o', c'.working k = some o' → ∃ o, c.working k = some o ∧ Tame o o') : c'.Inv := by
  refine ⟨fun k k' a' b' hne ha' hb' => ?_, hfit⟩
  obtain ⟨a, ha, hta⟩ := hcalm k a' ha'
  obtain ⟨b, hb, htb⟩ := hcalm k' b' hb'
  refine Bool.eq_false_iff.mpr fun hc => ?_
  have hconflict := hta.conflict htb hc
  rw [h.exclusive k k' a b hne ha hb] at hconflict
  cases hconflict

/-- One operation starts, which found nothing it conflicts with started. -/
lemma Inv.starts (h : c.Inv) (hfit : ∀ id w, c'.workflows.lookup id = some w → w.Fit) {a : Operation} {k : Key}
    (ha : c.operation k = some a) (hno : a.started.holds = false) (hfree : c.operationBlockers a.kind a.id = [])
    (hself : ∀ a', c'.working k = some a' → Tame a a') (hother : ∀ k', k' ≠ k → c'.working k' = c.working k') :
    c'.Inv := by
  have hk : a.key = k := operation_key ha
  have hmem : a ∈ c.operations := mem_operations.mpr (hk.symm ▸ ha)
  -- whatever works already does not conflict with it
  have hclear : ∀ k' b, k' ≠ k → c.working k' = some b → (operationsConflict a b).holds = false := by
    intro k' b hne hb
    obtain ⟨hop, hstarted⟩ := working_operation hb
    have hk' : b.key = k' := operation_key hop
    refine Bool.eq_false_iff.mpr fun hc => ?_
    have hbmem : b ∈ c.operations := mem_operations.mpr (hk'.symm ▸ hop)
    have hblocks : b ∈ c.operationBlockers a.kind a.id := by
      refine (mem_operationBlockers hmem).mpr ⟨hbmem, ?_, (waitsFor_holds hmem).mpr ⟨hno, hc, .inl hstarted⟩⟩
      rintro rfl
      exact hne (hk'.symm.trans hk)
    rw [hfree] at hblocks
    cases hblocks
  have hstart : ∀ k' a' b, k' ≠ k → c'.working k = some a' → c'.working k' = some b →
      (operationsConflict a' b).holds = false := by
    intro k' a' b hne ha' hb
    rw [hother k' hne] at hb
    refine Bool.eq_false_iff.mpr fun hc => ?_
    have hconflict := (hself a' ha').conflict_left hc
    rw [hclear k' b hne hb] at hconflict
    cases hconflict
  refine ⟨fun k₁ k₂ x y hne hx hy => ?_, hfit⟩
  by_cases h₁ : k₁ = k
  · subst h₁
    exact hstart k₂ x y (Ne.symm hne) hx hy
  · by_cases h₂ : k₂ = k
    · subst h₂
      rw [operationsConflict_comm]
      exact hstart k₁ y x h₁ hy hx
    · rw [hother k₁ h₁] at hx
      rw [hother k₂ h₂] at hy
      exact h.exclusive k₁ k₂ x y hne hx hy

lemma update_cases (c : Catalog) (id : Uuid) (f : Workflow → Option Workflow) :
    c.update id f = c ∨ ∃ w w', c.workflows.lookup id = some w ∧ f w = some w' ∧
      c.update id f = { c with workflows := c.workflows.insert id w' } := by
  unfold update
  cases hf : (c.workflows.lookup id).bind f with
  | none => exact .inl rfl
  | some w' =>
    obtain ⟨w, hw, hw'⟩ := Option.bind_eq_some_iff.mp hf
    exact .inr ⟨w, w', hw, hw', rfl⟩

section

variable {id : Uuid} {w : Workflow} {m : Migration}

lemma fit_insert (h : ∀ id w, c.workflows.lookup id = some w → w.Fit) (hw : w.Fit) :
    ∀ id' w', (c.workflows.insert id w).lookup id' = some w' → w'.Fit := by
  intro id' w' hlook
  by_cases hid : id' = id
  · subst hid
    rw [AList.lookup_insert] at hlook
    cases hlook
    exact hw
  · rw [AList.lookup_insert_ne hid] at hlook
    exact h id' w' hlook

lemma working_insertWorkflow (k : Key) (n : Nat) :
    ({ c with workflows := c.workflows.insert id w, arrival := n } : Catalog).working k =
      if k = .workflow id then w.working id else c.working k := by
  cases k with
  | ddl id' => rfl
  | workflow id' =>
    by_cases hid : id' = id
    · subst hid
      simp [working]
    · simp [working, hid, AList.lookup_insert_ne hid]

lemma working_insertMigration (k : Key) (n : Nat) :
    ({ c with migrations := c.migrations.insert id m, arrival := n } : Catalog).working k =
      if k = .ddl id then m.working id else c.working k := by
  cases k with
  | workflow id' => rfl
  | ddl id' =>
    by_cases hid : id' = id
    · subst hid
      simp [working]
    · simp [working, hid, AList.lookup_insert_ne hid]

end

lemma Inv.update (h : c.Inv) (id : Uuid)
    (hf : ∀ w w', w.Fit → f w = some w' → Calm w w' ∧ w'.Fit) : (c.update id f).Inv := by
  rcases c.update_cases id f with hsame | ⟨w, w', hw, hw', hnew⟩
  · rwa [hsame]
  · obtain ⟨hcalm, hfit⟩ := hf w w' (h.fit id w hw) hw'
    rw [hnew]
    refine h.calm (fit_insert h.fit hfit) fun k o' hk => ?_
    rw [working_insertWorkflow] at hk
    split at hk
    · rename_i hkey
      obtain ⟨hworks, rfl⟩ := Workflow.working_iff.mp hk
      refine ⟨w.row id, ?_, hcalm.row hworks id⟩
      rw [hkey, working, hw]
      exact Workflow.working_iff.mpr ⟨hcalm.works hworks, rfl⟩
    · exact ⟨o', hk, {}⟩

/-- A new row has not started. -/
lemma Inv.addWorkflow (h : c.Inv) (id : Uuid) (hw : w.stage = none ∨ w.stage = some .provisioning)
    (hkind : w.kind.copies = false → w.stage = none) : (c.addWorkflow id w).Inv := by
  unfold Catalog.addWorkflow
  split
  · exact h
  · have hnew : ∀ n, ¬({ w with arrival := n } : Workflow).Works := by
      intro n hworks
      cases hk : w.kind.copies with
      | true =>
        have hpast := hworks.copy hk
        rcases hw with hs | hs <;> simp [Workflow.past, hs] at hpast
      | false =>
        have hpast := (hworks.placement hk).1
        simp [Workflow.past, hkind hk] at hpast
    have hfit : ∀ n, ({ w with arrival := n } : Workflow).Fit := by
      intro n hk hp
      simp [Workflow.past, hkind hk] at hp
    refine h.calm (fit_insert h.fit (hfit _)) fun k o' hk => ?_
    rw [working_insertWorkflow] at hk
    split at hk
    · exact absurd (Workflow.working_iff.mp hk).1 (hnew _)
    · exact ⟨o', hk, {}⟩

lemma Inv.enqueue (h : c.Inv) (id : Uuid) (database : String) (metaDatabase : Option String) (kind : String) :
    (c.enqueue id database metaDatabase kind).Inv := by
  unfold Catalog.enqueue
  split
  · exact h
  · refine h.calm h.fit fun k o' hk => ?_
    rw [working_insertMigration] at hk
    split at hk
    · cases (Migration.working_eq hk).2
    · exact ⟨o', hk, {}⟩

lemma Inv.saveMigration (h : c.Inv) (id : Uuid) (state : MigrationState) (held : Bool) :
    (c.saveMigration id state held).Inv := by
  unfold Catalog.saveMigration
  split
  · rename_i m hm
    split
    · rename_i hcan
      obtain ⟨hunfinished, hgate⟩ := hcan
      have hworking : ∀ k, ({ c with migrations := c.migrations.insert id { m with state } } : Catalog).working k =
          if k = .ddl id then ({ m with state } : Migration).working id else c.working k :=
        fun k => working_insertMigration k c.arrival
      by_cases hstarts : m.state = .queued ∧ state = .running
      · obtain ⟨hqueued, rfl⟩ := hstarts
        have hfree : c.operationBlockers .ddl id = [] := by
          by_contra hne
          exact hgate ⟨hqueued, rfl, .inl hne⟩
        have hop : m.operation id = some _ := if_pos hunfinished
        refine h.starts (k := .ddl id) h.fit (Option.bind_eq_some_iff.mpr ⟨m, hm, hop⟩) ?_ hfree ?_ ?_
        · simp [hqueued]
        · intro a' ha'
          rw [hworking, if_pos rfl] at ha'
          have hop' := (Migration.working_eq ha').1
          rw [Migration.operation, if_pos (by simp [Migration.unfinished])] at hop'
          cases hop'
          exact {}
        · intro k' hne
          rw [hworking, if_neg hne]
      · refine h.calm h.fit fun k o' hk => ?_
        rw [hworking] at hk
        split at hk
        · rename_i hkey
          have hrunning : state = .running := (Migration.working_eq hk).2
          subst hrunning
          have hstate : m.state = .running := by
            have hor : m.state = .queued ∨ m.state = .running := of_decide_eq_true hunfinished
            exact hor.resolve_left fun hq => hstarts ⟨hq, rfl⟩
          refine ⟨o', ?_, {}⟩
          rw [hkey, working, hm, Option.bind_some, ← hk, ← hstate]
        · exact ⟨o', hk, {}⟩
    · exact h
  · exact h

lemma Inv.start (h : c.Inv) (id : Uuid) (held : Bool) : (c.start id held).Inv := by
  unfold Catalog.start
  rcases c.update_cases id _ with hsame | ⟨w, w', hw, hw', hnew⟩
  · rwa [hsame]
  · obtain ⟨hgate, hs⟩ := Option.ite_none_right_eq_some.mp hw'
    obtain ⟨hwait, hfit, -, htame⟩ := Workflow.start_spec hs
    obtain ⟨hactive, -, hno⟩ := Workflow.waiting_spec hwait id
    have hop : w.operation id = some (w.row id) := by
      rw [Workflow.operation_eq, Workflow.unfinished_holds, hactive]
      rfl
    obtain ⟨-, hkind, hid⟩ := Workflow.operation_key hop
    rw [hnew]
    refine h.starts (k := .workflow id) (fit_insert h.fit hfit) (Option.bind_eq_some_iff.mpr ⟨w, hw, hop⟩) hno ?_ ?_ ?_
    · rw [hkind, hid]
      exact hgate.1
    · intro a' ha'
      rw [working_insertWorkflow, if_pos rfl] at ha'
      rw [(Workflow.working_iff.mp ha').2]
      exact htame id
    · intro k' hne
      rw [working_insertWorkflow, if_neg hne]

lemma inv_init : ({} : Catalog).Inv := by
  refine ⟨fun k k' a b _ ha => ?_, fun id w hw => ?_⟩
  · cases k <;> simp [working] at ha
  · simp at hw

lemma Inv.step (h : c.Inv) (e : Event) : (c.step e).Inv := by
  cases e with
  | declareSet => exact ⟨h.exclusive, h.fit⟩
  | enqueue id database metaDatabase kind => exact h.enqueue id database metaDatabase kind
  | createPlacement id database => exact h.addWorkflow id (.inl rfl) fun _ => rfl
  | recordRangeEdit id => exact h.addWorkflow id (.inl rfl) fun _ => rfl
  | createReshard id upgrade sourceSet =>
    refine h.addWorkflow id (.inr rfl) ?_
    cases upgrade <;> nofun
  | saveMigration id state held => exact h.saveMigration id state held
  | start id held => exact h.start id held
  | pause id => exact h.update id fun _ _ hfit hf => Workflow.calm_pause hfit hf
  | resume id => exact h.update id fun _ _ hfit hf => Workflow.calm_resume hfit hf
  | cancel id => exact h.update id fun _ _ _ hf => Workflow.calm_cancel hf
  | cancelPlacement id => exact h.update id fun _ _ _ hf => Workflow.calm_cancelPlacement hf
  | removeSet id sourceGone => exact h.update id fun _ _ _ hf => Workflow.calm_removeSet hf
  | targetsReady id => exact h.update id fun _ _ _ hf => Workflow.calm_targetsReady hf
  | saveWaiting id startError => exact h.update id fun _ _ _ hf => Workflow.calm_saveWaiting hf
  | advance id next => exact h.update id fun _ _ _ hf => Workflow.calm_advance hf
  | finish id state stage => exact h.update id fun _ _ _ hf => Workflow.calm_finish hf

lemma Inv.run (h : c.Inv) (events : List Event) : (c.run events).Inv := by
  induction events generalizing c with
  | nil => exact h
  | cons e events ih => exact ih (h.step e)

/-- The operation only cleans up after a cancel. -/
def Cleaning (c : Catalog) (o : Operation) : Prop :=
  o.kind ≠ .ddl ∧ ∃ w, c.workflows.lookup o.id = some w ∧ w.stage = some .cancelling

lemma working_of_started (ho : o ∈ c.operations) (hs : o.started.holds = true)
    (hclean : ¬c.Cleaning o) : c.working o.key = some o := by
  have hop := mem_operations.mp ho
  cases hk : o.key with
  | ddl id =>
    rw [hk] at hop
    obtain ⟨m, hm, hmop⟩ := Option.bind_eq_some_iff.mp hop
    exact Option.bind_eq_some_iff.mpr ⟨m, hm, Option.filter_eq_some_iff.mpr ⟨hmop, hs⟩⟩
  | workflow id =>
    rw [hk] at hop
    obtain ⟨w, hw, hwop⟩ := Option.bind_eq_some_iff.mp hop
    obtain ⟨-, hkind, rfl⟩ := Workflow.operation_key hwop
    refine Option.bind_eq_some_iff.mpr ⟨w, hw, ?_⟩
    rw [Workflow.working, if_neg]
    · exact Option.filter_eq_some_iff.mpr ⟨hwop, hs⟩
    · intro hstage
      refine hclean ⟨?_, w, hw, hstage⟩
      rw [hkind]
      cases w.kind <;> nofun

end Catalog

/-- After any sequence of arrivals, starts, pauses, resumes, stage changes and endings: no two operations that conflict
have both started, those aside that only clean up; waiting has no cycle; and while nothing has started, one of the
operations that hold their place waits for nothing. -/
theorem queue_excludes_and_progresses (events : List Event) :
    let c := ({} : Catalog).run events
    (∀ a ∈ c.operations, ∀ b ∈ c.operations, a ≠ b → a.started.holds = true → b.started.holds = true →
      ¬c.Cleaning a → ¬c.Cleaning b → (operationsConflict a b).holds = false) ∧
    (∀ a, ¬ Relation.TransGen c.Waits a a) ∧
    ((∀ o ∈ c.operations, o.started.holds = false) → (∃ o ∈ c.operations, o.holdsQueue.holds = true) →
      ∃ o ∈ c.operations, o.holdsQueue.holds = true ∧ c.operationBlockers o.kind o.id = []) := by
  intro c
  have hinv : c.Inv := Catalog.inv_init.run events
  refine ⟨fun a ha b hb hne hsa hsb hca hcb => ?_, c.waits_acyclic, Catalog.first_free⟩
  have hkeys : a.key ≠ b.key := fun hk => hne (Catalog.eq_of_key ha hb hk)
  exact hinv.exclusive a.key b.key a b hkeys (Catalog.working_of_started ha hsa hca)
    (Catalog.working_of_started hb hsb hcb)

end PgShard.Queue
