import PgShard.Migration.Complete
import PgShard.Migration.Owner

/-!
# What is known of an online rewrite

The entry of a shard names the phase it has reached. Two readings of it matter: that the phases before it have
come to an end on the shard, and, where the passes that do not lead leave the shards alone, that a working
column which was added is still there unless the shard cut over or was reverted. The second comes on top of
the first, so both are followed at once; `strict` says whether the second is.
-/

namespace PgShard.Migration

open Interleave

variable {Q : Type}

def Call.onShard : Call Q → Bool
  | .step _ _ _ | .runStep _ _ _ | .rewritePhase _ _ _ | .columnExists _ _ | .swapColumns _ _
  | .cutoverCommitted _ _ | .revertRewrite _ _ | .sweepShard _ => true
  | _ => false

/-- No shard of a row that is running is recorded as failed. -/
def World.unfailed (w : World Q) : Prop :=
  w.row.state = .running → ∀ key ∈ w.row.keys, (w.row.perShard key).state ≠ .failed

/-- No shard of a row that is running has been reverted. -/
def World.unreverted (w : World Q) : Prop :=
  w.row.state = .running → ∀ key ∈ w.row.keys, (w.shards key).reverted = false

/-- What is asked of a run. -/
structure Guards (strict : Prop) (b : Bounds (World Q) (Call Q) Luck Event) : Prop where
  late : ∀ {x i c w}, b.call x i c w → noticedLate x c w
  loads : ∀ {x i w}, b.call x i .pending w → w.unfailed
  reverts : ∀ {x i w}, strict → b.call x i .pending w → w.unreverted
  owned : ∀ {x i c w}, strict → c.onShard = true → b.call x i c w → w.owner = some i
  finds : ∀ {x i m key w}, strict → b.call x i (.cutoverCommitted m key) w → w.finds m = true
  led : ∀ {led catalog w}, strict → b.world (.begin led catalog) w → led = true

def MigrationState.final : MigrationState → Bool
  | .complete | .failed => true
  | _ => false

/-- The phases before the one an entry names have come to an end on its shard. -/
def DDLMigration.Phased (m : DDLMigration Q) (w : World Q) : Prop :=
  ∀ key ∈ m.keys, ∀ phase < (m.perShard key).step, phase ∈ (w.shards key).phases

def ShardData.begun (d : ShardData Q) : Prop := d.phases ≠ [] ∨ d.hidden = true

/-- Where the working column was added it is there, unless the shard cut over or was reverted; once nothing
is left to do it may have been swept away. -/
structure ShardData.Sane (final : Bool) (d : ShardData Q) : Prop where
  there : 0 ∈ d.phases → d.hidden = true ∨ d.cut = true ∨ d.reverted = true ∨ final = true
  swapped : rewriteCutover ∈ d.phases → d.cut = true

/-- The row names the shards on which something was begun or reverted. -/
structure DDLMigration.Sees (m : DDLMigration Q) (shards : Key → ShardData Q) : Prop where
  begun : ∀ key, (shards key).begun → m.state ≠ .queued ∧ m.touched = true ∧ key ∈ m.keys
  reverted : ∀ key, (shards key).reverted = true → m.state ≠ .queued ∧ key ∈ m.keys

structure Traced (w : World Q) : Prop where
  term : 0 < w.term
  concluded : ∀ c ∈ w.concluded, c.2 = true
  shards : ∀ key, (w.shards key).Sane w.row.state.final
  sees : w.row.Sees w.shards

/-- The invariant of a run. -/
structure Rewritten (strict : Prop) (w : World Q) : Prop where
  strategy : w.row.strategy = .rewrite
  phased : w.row.Phased w
  whole : w.row.state = .complete → ∀ key ∈ w.row.keys, rewriteCutover < (w.row.perShard key).step
  cutovers : ∀ c ∈ w.cutovers, c.2 = []
  traced : strict → Traced w

/-- What a pass may count on between two of its calls. -/
structure Meanwhile (strict : Prop) (i : Nat) (s t : World Q) : Prop where
  later : Later i s t
  grows : s.Grows t
  leads : strict → Leads id i s t

/-- The pass leads, where that is followed. -/
def Own (strict : Prop) (i : Nat) (w : World Q) : Prop := strict ∧ w.owner = some i

namespace Meanwhile

variable {strict : Prop} {i : Nat} {s t u : World Q}

lemma refl (i : Nat) (s : World Q) : Meanwhile strict i s s := ⟨{}, .refl s, fun _ => .refl i s⟩

lemma trans (h : Meanwhile strict i s t) (h' : Meanwhile strict i t u) : Meanwhile strict i s u :=
  ⟨h.later.trans h'.later, h.grows.trans h'.grows, fun hs => (h.leads hs).trans (h'.leads hs)⟩

/-- What the pass that leads knows of the row and the shards stays so. -/
lemma kept (h : Meanwhile strict i s t) {P : DDLMigration Q → (Key → ShardData Q) → Prop}
    (hP : Own strict i s → P s.row s.shards) (ho : Own strict i t) : P t.row t.shards := by
  obtain ⟨hs, -, hrow, hsame⟩ := (h.leads ho.1).kept ho.2
  have hshards : t.shards = s.shards := funext hsame
  rw [hrow, hshards]
  exact hP ⟨ho.1, hs⟩

lemma happen (e : Event) (n : Nat) (w : World Q) (hi : i < n) : Meanwhile strict i w (Migration.happen e n w).2 :=
  ⟨.happen e n w i, .of_eq (happen_spares e n w).shards, fun _ => .happen e n w hi⟩

end Meanwhile

def rewriteLogic (strict : Prop) (b : Bounds (World Q) (Call Q) Luck Event) : Logic (host Q) b where
  inv := Rewritten strict
  rely := Meanwhile strict
  rely_refl := Meanwhile.refl
  rely_trans := Meanwhile.trans

lemma DDLMigration.Phased.grows {m : DDLMigration Q} {w w' : World Q} (h : m.Phased w) (hw : w.Grows w') :
    m.Phased w' :=
  fun key hkey phase hphase => (hw key).phases.subset (h key hkey phase hphase)

/-! ### A row that may be written -/

/-- The term of a pass. -/
structure Posted (strict : Prop) (i : Nat) (p : Pass) (w : World Q) : Prop where
  term : p.term ≤ w.term
  led : strict → Led i p w

/-- What has to be known of a row that is written. -/
structure Sure (strict : Prop) (i : Nat) (p : Pass) (m : DDLMigration Q) (w : World Q) : Prop
    extends Posted strict i p w where
  strategy : m.strategy = .rewrite
  phased : m.Phased w
  whole : m.state = .complete → ∀ key ∈ m.keys, rewriteCutover < (m.perShard key).step
  sees : Own strict i w → m.Sees w.shards
  final : Own strict i w → m.state.final = false → w.row.state.final = false

section

variable {strict : Prop} {b : Bounds (World Q) (Call Q) Luck Event} {i : Nat} {p : Pass} {m : DDLMigration Q}
  {s t u w : World Q}

lemma Posted.later (hm : Posted strict i p s) (h : Meanwhile strict i s t) : Posted strict i p t :=
  ⟨Nat.le_trans hm.term h.later.term, fun hs => (hm.led hs).later (h.leads hs)⟩

/-- A call of a pass leaves the term and who leads. -/
lemma Posted.called (h : Posted strict i p t) (hterm : u.term = t.term := by rfl)
    (howner : u.owner = t.owner := by rfl) : Posted strict i p u :=
  ⟨hterm ▸ h.term, fun hs => ⟨(h.led hs).guarded, fun ho => hterm ▸ (h.led hs).current (howner ▸ ho),
    by rw [howner, hterm]; exact (h.led hs).passed⟩⟩

lemma Sure.later (hm : Sure strict i p m s) (h : Meanwhile strict i s t) : Sure strict i p m t where
  toPosted := hm.toPosted.later h
  strategy := hm.strategy
  phased := hm.phased.grows h.grows
  whole := hm.whole
  sees := h.kept (P := fun _ shards => m.Sees shards) hm.sees
  final := h.kept (P := fun row _ => m.state.final = false → row.state.final = false) hm.final

lemma ShardData.Sane.final {d : ShardData Q} {final final' : Bool} (h : d.Sane final)
    (hfinal : final = true → final' = true) : d.Sane final' :=
  ⟨fun h0 => (h.there h0).imp_right fun h => h.imp_right fun h => h.imp_right hfinal, h.swapped⟩

lemma Traced.written (h : Traced t) (hm : m.Sees t.shards)
    (hfinal : m.state.final = false → t.row.state.final = false) : Traced { t with row := t.saved m } := by
  refine ⟨h.term, h.concluded, fun key => (h.shards key).final fun hf => ?_, { hm with }⟩
  change m.state.final = true
  cases hopen : m.state.final with
  | true => rfl
  | false =>
    rw [hfinal hopen] at hf
    cases hf

lemma written_rewritten (hinv : Rewritten strict t) (hm : Sure strict i p m t) (haccepts : t.accepts p.term = true) :
    Rewritten strict { t with row := t.saved m } ∧
      ∀ j, j ≠ i → Meanwhile strict j t { t with row := t.saved m } := by
  -- the write is taken, so the pass leads
  have howner : strict → t.owner = some i := fun hs => (hm.led hs).accepts_iff.mp haccepts
  refine ⟨⟨hinv.strategy, hm.phased, hm.whole, hinv.cutovers, fun hs => ?_⟩, fun j hne => ?_⟩
  · exact (hinv.traced hs).written (hm.sees ⟨hs, howner hs⟩) (hm.final ⟨hs, howner hs⟩)
  · exact ⟨{}, .of_eq rfl, fun hs => .of_owner (howner hs) hne⟩

/-- What comes of a save: nothing, or the row. -/
def Saved (strict : Prop) (i : Nat) (p : Pass) (m : DDLMigration Q) (s : World Q) (r : Except SaveError Unit)
    (u : World Q) : Prop :=
  ∃ t, Meanwhile strict i s t ∧ ((u = t ∧ r ≠ .ok () ∧ (r = .error .notLeaderTerm → t.accepts p.term = false)) ∨
      Sure strict i p m t ∧ t.accepts p.term = true ∧ r ≠ .error .notLeaderTerm ∧ u = { t with row := t.saved m })

lemma rewrite_save (hm : Sure strict i p m s ∨ Deposed p.term s) :
    (rewriteLogic strict b).Safe i (Saved strict i p m s) (ask (.save p.term m)) s := by
  intro t ht hinv x r u _ hexec
  rcases World.write_cases (Option.some.inj hexec) with ⟨rfl, hne, hrefused⟩ | ⟨haccepts, rfl, hne⟩
  · exact ⟨hinv, fun j _ => .refl j u, u, ht, .inl ⟨rfl, hne, hrefused⟩⟩
  · rcases hm with hm | hdeposed
    · obtain ⟨hu, hothers⟩ := written_rewritten hinv (hm.later ht) haccepts
      exact ⟨hu, hothers, t, ht, .inr ⟨hm.later ht, haccepts, hne, rfl⟩⟩
    · rw [(ht.later.deposed hdeposed).refused] at haccepts
      cases haccepts

end

section

variable {x : Luck} {i : Nat} {key : Key} {m : DDLMigration Q} {t u : World Q}

/-- The working column is gone and the rewrite given up. -/
def ShardData.revert (d : ShardData Q) : ShardData Q := { d with hidden := false, reverted := true }

lemma plain_skipped {e : Err} (h : x.plain = some e) : e.skipped = false := by
  cases herr : x.err with
  | none => simp [Luck.plain, herr] at h
  | some e' =>
    simp only [Luck.plain, herr, Option.map_some, Option.some.injEq] at h
    rw [← h]
    rfl

/-- The shard has done `f` and the phase has come to an end; or it has failed, before or after `f`. -/
def Acts (key : Key) (phase : Nat) (f : ShardData Q → ShardData Q) (t : World Q) (r : Except Err Unit) (u : World Q) : Prop :=
  (r = .ok () ∧ u = t.onShard key fun d => (f d).succeed phase) ∨
    ∃ e, e.skipped = false ∧ r = .error e ∧ (u = t ∨ u = t.onShard key f)

lemma exec_rewritePhase {phase : Nat} {r : Except Err Unit} (h : exec x i (.rewritePhase m key phase) t = some (r, u)) :
    Acts key phase (·.effect phase) t r u := by
  simp only [exec, shardExec] at h
  split at h
  · cases h
    exact .inl ⟨rfl, rfl⟩
  · rename_i e he
    split at h <;> cases h
    · exact .inr ⟨e, plain_skipped he, rfl, .inr rfl⟩
    · exact .inr ⟨e, plain_skipped he, rfl, .inl rfl⟩

lemma exec_columnExists {r : Except Err Bool} (h : exec x i (.columnExists m key) t = some (r, u)) :
    (∃ e, e.skipped = false ∧ r = .error e ∧ u = t) ∨
      (r = .ok true ∧ u = { t with cutovers := t.cutovers ++ [(key, t.behind m)] }) ∨
      r = .ok false ∧ (t.shards key).hidden = false ∧
        u = { t.onShard key (·.succeed rewriteCutover) with
          cutovers := t.cutovers ++ [(key, t.behind m)]
          concluded := t.concluded ++ [(key, (t.shards key).cut)] } := by
  simp only [exec, shardExec] at h
  split at h
  · rename_i e he
    cases h
    exact .inl ⟨e, plain_skipped he, rfl, rfl⟩
  · split at h <;> cases h
    · exact .inr (.inl ⟨rfl, rfl⟩)
    · rename_i hhidden
      exact .inr (.inr ⟨rfl, by simpa using hhidden, rfl⟩)

lemma exec_swapColumns {r : Except Err Unit} (h : exec x i (.swapColumns m key) t = some (r, u)) :
    Acts key rewriteCutover ShardData.swap t r u := by
  simp only [exec, shardExec] at h
  split at h
  · cases h
    refine .inr ⟨_, ?_, rfl, .inl rfl⟩
    cases he : x.plain with
    | none => rfl
    | some e => exact plain_skipped he
  · split at h
    · cases h
      exact .inl ⟨rfl, rfl⟩
    · rename_i e he
      split at h <;> cases h
      · exact .inr ⟨e, plain_skipped he, rfl, .inr rfl⟩
      · exact .inr ⟨e, plain_skipped he, rfl, .inl rfl⟩

lemma exec_cutoverCommitted {r : Except Err Bool} (h : exec x i (.cutoverCommitted m key) t = some (r, u)) :
    u = t ∨ ((t.shards key).hidden && t.finds m) = false ∧
      u = { t with concluded := t.concluded ++ [(key, (t.shards key).cut)] } := by
  simp only [exec, shardExec] at h
  split at h
  · cases h
    exact .inl rfl
  · split at h <;> cases h
    · exact .inl rfl
    · rename_i hno
      exact .inr ⟨by simpa using hno, rfl⟩

lemma exec_revertRewrite {r : Except Err Unit} (h : exec x i (.revertRewrite m key) t = some (r, u)) :
    u = t ∨ u = t.onShard key ShardData.revert := by
  simp only [exec, shardExec] at h
  split at h <;> cases h
  · exact .inr rfl
  · exact .inl rfl

end

/-! ### What a call on a shard leaves -/

section

variable {strict : Prop} {i j : Nat} {key : Key} {f : ShardData Q → ShardData Q} {t u : World Q}

lemma Traced.onShard (h : Traced t) (hsane : (f (t.shards key)).Sane t.row.state.final)
    (hbegun : (f (t.shards key)).begun → t.row.state ≠ .queued ∧ t.row.touched = true ∧ key ∈ t.row.keys)
    (hreverted : (f (t.shards key)).reverted = true → t.row.state ≠ .queued ∧ key ∈ t.row.keys) :
    Traced (t.onShard key f) :=
  ⟨h.term, h.concluded,
    (World.forall_onShard (P := fun _ d => d.Sane t.row.state.final)).mpr ⟨hsane, fun key' _ => h.shards key'⟩,
    (World.forall_onShard (P := fun key d => d.begun → _ ∧ _ ∧ key ∈ t.row.keys)).mpr
      ⟨hbegun, fun key' _ => h.sees.begun key'⟩,
    (World.forall_onShard (P := fun key d => d.reverted = true → _ ∧ key ∈ t.row.keys)).mpr
      ⟨hreverted, fun key' _ => h.sees.reverted key'⟩⟩

lemma Rewritten.onShard (h : Rewritten strict t) (hgrows : (t.shards key).Grows (f (t.shards key)))
    (htraced : strict → Traced (t.onShard key f)) : Rewritten strict (t.onShard key f) :=
  ⟨h.strategy, h.phased.grows (.onShard hgrows), h.whole, h.cutovers, htraced⟩

/-- The store the others see after a call of the pass that leads. -/
lemma Meanwhile.of_owned (howned : strict → t.owner = some i) (hne : j ≠ i) (hgrows : t.Grows u)
    (hterm : u.term = t.term := by rfl) (hcancelled : u.cancelled = t.cancelled := by rfl)
    (howner : u.owner = t.owner := by rfl) : Meanwhile strict j t u :=
  ⟨⟨Nat.le_of_eq hterm.symm, fun h => hcancelled ▸ h⟩, hgrows,
    fun hs => .of_owner (howned hs) hne hterm hcancelled howner⟩

end

end PgShard.Migration
