import PgShard.Queue.Changes

/-!
# The rule by itself

Whatever the rows are, waiting has no cycles, and while nothing has started the first that holds its place waits for
nothing.
-/

namespace PgShard.Queue

open Sql

lemma operationsConflict_comm (a b : Operation) : operationsConflict a b = operationsConflict b a := by
  have hor : ∀ x y : Truth, x.or y = y.or x := by
    intro x y
    rcases x with _ | (_ | _) <;> rcases y with _ | (_ | _) <;> rfl
  unfold operationsConflict
  rw [overlaps_comm a.databases b.databases, hor a.clusterScoped b.clusterScoped]
  cases a.kind <;> cases b.kind <;> rfl

/-- The same operation later on, which holds DDL no more than before. -/
structure Tame (o o' : Operation) : Prop where
  kind : o'.kind = o.kind := by rfl
  databases : o'.databases = o.databases := by rfl
  clusterScoped : o'.clusterScoped = o.clusterScoped := by rfl
  ddlHoldEnds : o.ddlHoldEnds.getD false = true → o'.ddlHoldEnds.getD false = true := by exact fun h => h

lemma Tame.conflict_left {o o' : Operation} (h : Tame o o') {b : Operation}
    (hc : (operationsConflict o' b).holds = true) : (operationsConflict o b).holds = true := by
  obtain ⟨hkind, hdb, hcl, hends⟩ := h
  unfold operationsConflict at hc ⊢
  rw [hkind, hdb, hcl] at hc
  cases hk : o.kind <;> cases hk' : b.kind <;> rw [hk, hk'] at hc <;> first | exact hc | skip
  -- a placement against DDL
  simp only [Truth.holds_and, Truth.coalesce, Truth.not, Truth.holds_some, Bool.and_eq_true, Bool.not_eq_true'] at hc ⊢
  refine ⟨hc.1, ?_⟩
  cases he : o.ddlHoldEnds.getD false with
  | false => rfl
  | true =>
    rw [hends he] at hc
    cases hc.2

lemma Tame.conflict {a a' b b' : Operation} (ha : Tame a a') (hb : Tame b b')
    (hc : (operationsConflict a' b').holds = true) : (operationsConflict a b).holds = true := by
  have hleft := ha.conflict_left hc
  rw [operationsConflict_comm] at hleft ⊢
  exact hb.conflict_left hleft

lemma Workflow.cancelling_eq {w : Workflow} {s : Stage} (h : w.stage = some s) :
    w.cancelling = some (decide (s = .cancelling)) := by
  rw [Workflow.cancelling, h]
  rfl

/-- Whether an operation has started is always known. -/
lemma Workflow.placementStarted_eq (w : Workflow) :
    w.placementStarted = some (w.past [.preparing] && (w.state ∈ [.running, .paused] || w.stage = some .cancelling)) := by
  unfold placementStarted past
  cases hs : w.stage with
  | none => rfl
  | some s =>
    rw [w.cancelling_eq hs]
    simp only [Option.some.injEq]
    cases decide (s ∉ [Stage.preparing]) <;> cases decide (w.state ∈ [WorkflowState.running, .paused]) <;>
      cases decide (s = Stage.cancelling) <;> rfl

lemma Workflow.unfinished_holds (w : Workflow) : w.unfinished.holds = (w.active || w.stage = some .cancelling) := by
  rw [unfinished, Truth.holds_or, Truth.holds_some, cancelling]
  cases w.stage with
  | none => rfl
  | some s => simp [equal]

inductive Key
  | ddl (id : Uuid)
  | workflow (id : Uuid)
  deriving DecidableEq

def Operation.key (o : Operation) : Key :=
  match o.kind with
  | .ddl => .ddl o.id
  | _ => .workflow o.id

lemma Migration.operation_key {m : Migration} {id : Uuid} {o : Operation} (h : m.operation id = some o) :
    o.key = .ddl id ∧ o.kind = .ddl ∧ o.id = id := by
  unfold operation at h
  split at h
  · cases h
    exact ⟨rfl, rfl, rfl⟩
  · cases h

lemma Workflow.operation_key {w : Workflow} {id : Uuid} {o : Operation} (h : w.operation id = some o) :
    o.key = .workflow id ∧ o.kind = w.kind.operation ∧ o.id = id := by
  unfold operation at h
  split at h
  · cases hk : w.kind <;> rw [hk] at h <;> cases h <;> exact ⟨rfl, rfl, rfl⟩
  · cases h

namespace Catalog

variable (c : Catalog)

/-- The operation a key stands for, while it is unfinished. -/
def operation : Key → Option Operation
  | .ddl id => (c.migrations.lookup id).bind (·.operation id)
  | .workflow id => (c.workflows.lookup id).bind (·.operation id)

variable {c} {a b o : Operation}

lemma operation_key {k : Key} (h : c.operation k = some o) : o.key = k := by
  cases k with
  | ddl id =>
    obtain ⟨m, -, hm⟩ := Option.bind_eq_some_iff.mp h
    exact (Migration.operation_key hm).1
  | workflow id =>
    obtain ⟨w, -, hw⟩ := Option.bind_eq_some_iff.mp h
    exact (Workflow.operation_key hw).1

lemma mem_operations : o ∈ c.operations ↔ c.operation o.key = some o := by
  constructor
  · intro h
    rcases List.mem_append.mp h with h | h
    · obtain ⟨⟨id, m⟩, hm, ho⟩ := List.mem_filterMap.mp h
      rw [(Migration.operation_key ho).1, operation, AList.mem_lookup_iff.mpr hm]
      exact ho
    · obtain ⟨⟨id, w⟩, hw, ho⟩ := List.mem_filterMap.mp h
      rw [(Workflow.operation_key ho).1, operation, AList.mem_lookup_iff.mpr hw]
      exact ho
  · intro h
    apply List.mem_append.mpr
    cases hk : o.key with
    | ddl id =>
      rw [hk] at h
      obtain ⟨m, hm, ho⟩ := Option.bind_eq_some_iff.mp h
      exact .inl (List.mem_filterMap.mpr ⟨⟨id, m⟩, AList.mem_lookup_iff.mp hm, ho⟩)
    | workflow id =>
      rw [hk] at h
      obtain ⟨w, hw, ho⟩ := Option.bind_eq_some_iff.mp h
      exact .inr (List.mem_filterMap.mpr ⟨⟨id, w⟩, AList.mem_lookup_iff.mp hw, ho⟩)

lemma eq_of_key (ha : a ∈ c.operations) (hb : b ∈ c.operations) (h : a.key = b.key) : a = b := by
  rw [mem_operations] at ha hb
  rw [h, hb] at ha
  exact (Option.some.inj ha).symm

/-- The view names a row by its kind and id. -/
lemma same_iff (ha : a ∈ c.operations) (hb : b ∈ c.operations) : b.kind = a.kind ∧ b.id = a.id ↔ b = a := by
  constructor
  · rintro ⟨hkind, hid⟩
    apply eq_of_key hb ha
    rw [Operation.key, Operation.key, hkind, hid]
  · rintro rfl
    exact ⟨rfl, rfl⟩

/-- Whether an operation has started is always known. -/
lemma started_isSome (h : o ∈ c.operations) : o.started.isSome = true := by
  rw [mem_operations] at h
  cases hk : o.key with
  | ddl id =>
    rw [hk] at h
    obtain ⟨m, -, hm⟩ := Option.bind_eq_some_iff.mp h
    unfold Migration.operation at hm
    split at hm
    · cases hm
      rfl
    · cases hm
  | workflow id =>
    rw [hk] at h
    obtain ⟨w, -, hw⟩ := Option.bind_eq_some_iff.mp h
    unfold Workflow.operation at hw
    split at hw
    · cases hkind : w.kind <;> rw [hkind] at hw <;> cases hw
      · rfl
      · rfl
      · exact congrArg Option.isSome w.placementStarted_eq
    · cases hw

lemma waitsFor_holds (ha : a ∈ c.operations) : (waitsFor a b).holds = true ↔
    a.started.holds = false ∧ (operationsConflict a b).holds = true ∧
      (b.started.holds = true ∨ b.arrival < a.arrival ∧ b.holdsQueue.holds = true) := by
  simp only [waitsFor, Truth.holds_and, Truth.holds_or, Truth.holds_not (started_isSome ha), Truth.holds_some,
    Bool.and_eq_true, Bool.or_eq_true, Bool.not_eq_true', decide_eq_true_eq, and_assoc]

lemma mem_operationBlockers (ha : a ∈ c.operations) :
    b ∈ c.operationBlockers a.kind a.id ↔ b ∈ c.operations ∧ b ≠ a ∧ (waitsFor a b).holds = true := by
  unfold operationBlockers
  constructor
  · intro h
    obtain ⟨a', ha', hb⟩ := List.mem_flatMap.mp h
    split at hb
    · rename_i hsame
      obtain rfl : a' = a := (same_iff ha ha').mp hsame
      simp only [List.mem_filter, Bool.and_eq_true, Bool.not_eq_true', decide_eq_false_iff_not] at hb
      refine ⟨hb.1, ?_, hb.2.2⟩
      rw [ne_eq, ← same_iff ha hb.1]
      exact hb.2.1
    · cases hb
  · rintro ⟨hb, hne, hw⟩
    refine List.mem_flatMap.mpr ⟨a, ha, ?_⟩
    rw [if_pos ⟨rfl, rfl⟩]
    simp only [List.mem_filter, Bool.and_eq_true, Bool.not_eq_true', decide_eq_false_iff_not]
    refine ⟨hb, ?_, hw⟩
    rw [same_iff ha hb]
    exact hne

/-- `b` is among what `a` waits for. -/
def Waits (c : Catalog) (a b : Operation) : Prop := a ∈ c.operations ∧ b ∈ c.operationBlockers a.kind a.id

lemma Waits.spec (h : c.Waits a b) : a.started.holds = false ∧ (b.started.holds = true ∨ b.arrival < a.arrival) := by
  obtain ⟨-, -, hw⟩ := (mem_operationBlockers h.1).mp h.2
  obtain ⟨hstarted, -, hb⟩ := (waitsFor_holds h.1).mp hw
  exact ⟨hstarted, hb.imp_right And.left⟩

/-- A chain of waits leads to what has started or to what came earlier. -/
lemma waits_chain (h : Relation.TransGen c.Waits a b) :
    a.started.holds = false ∧ (b.started.holds = true ∨ b.arrival < a.arrival) := by
  induction h with
  | single h => exact h.spec
  | tail _ h ih =>
    obtain ⟨hmid, hlast⟩ := h.spec
    refine ⟨ih.1, hlast.imp_right fun hlt => ?_⟩
    rcases ih.2 with hstarted | hearlier
    · rw [hmid] at hstarted
      cases hstarted
    · omega

lemma waits_acyclic (c : Catalog) (a : Operation) : ¬ Relation.TransGen c.Waits a a := by
  intro h
  obtain ⟨hno, hyes | hlt⟩ := waits_chain h
  · rw [hno] at hyes
    cases hyes
  · omega

/-- While nothing has started, the first of those that hold their place waits for nothing. -/
lemma first_free (hnone : ∀ o ∈ c.operations, o.started.holds = false)
    (h : ∃ o ∈ c.operations, o.holdsQueue.holds = true) :
    ∃ o ∈ c.operations, o.holdsQueue.holds = true ∧ c.operationBlockers o.kind o.id = [] := by
  obtain ⟨o, ⟨ho, hholds⟩, hfirst⟩ :=
    (measure Operation.arrival).wf.has_min { o | o ∈ c.operations ∧ o.holdsQueue.holds = true } h
  refine ⟨o, ho, hholds, List.eq_nil_iff_forall_not_mem.mpr fun b hb => ?_⟩
  obtain ⟨hb, -, hw⟩ := (mem_operationBlockers ho).mp hb
  rcases ((waitsFor_holds ho).mp hw).2.2 with hstarted | ⟨hlt, hb'⟩
  · rw [hnone b hb] at hstarted
    cases hstarted
  · exact hfirst b ⟨hb, hb'⟩ hlt

end Catalog

end PgShard.Queue
