import PgShard.Migration.Rewriting

/-!
# The phases of a rewrite, shard by shard

A phase is begun on a shard only once the one before it has come to an end on all of them. So when a shard
cuts over, each has its column filled in, and a working column that is missing is one that was swapped in.
-/

namespace PgShard.Migration

open Interleave

variable {Q : Type} {strict : Prop} {b : Bounds (World Q) (Call Q) Luck Event} {i : Nat} {p : Pass}
  {m m₀ m' : DDLMigration Q} {s t u w : World Q} {key : Key} {phase : Nat}

/-! ### The row in the catalog and the row in hand -/

/-- The row in the catalog is the one in hand, but for the entries. -/
structure Rowed (m row : DDLMigration Q) (shards : Key → ShardData Q) : Prop where
  running : row.state = .running
  keys : row.keys = m.keys
  begun : ∀ key, (shards key).begun → key ∈ m.keys
  reverted : ∀ key, (shards key).reverted = true → key ∈ m.keys

/-- The row in hand of a migration that is driven, or is given up. -/
structure Held (strict : Prop) (i : Nat) (p : Pass) (m : DDLMigration Q) (w : World Q) : Prop
    extends Posted strict i p w where
  strategy : m.strategy = .rewrite
  state : m.state = .running ∨ m.state = .failed
  phased : m.Phased w
  rowed : Own strict i w → Rowed m w.row w.shards
  touched : Own strict i w → ∀ key, (w.shards key).begun → m.touched = true

lemma Held.later (hm : Held strict i p m s) (h : Meanwhile strict i s t) : Held strict i p m t := { hm with
  toPosted := hm.toPosted.later h
  phased := hm.phased.grows h.grows
  rowed := h.kept (P := Rowed m) hm.rowed
  touched := h.kept (P := fun _ shards => ∀ key, (shards key).begun → m.touched = true) hm.touched }

lemma Held.sure (hm : Held strict i p m w) : Sure strict i p m w := { hm with
  whole h := by
    rcases hm.state with hstate | hstate <;> rw [hstate] at h <;> cases h
  sees ho := by
    have hrowed := hm.rowed ho
    have hstate : m.state ≠ .queued := by
      rcases hm.state with hstate | hstate <;> rw [hstate] <;> decide
    exact ⟨fun key hb => ⟨hstate, hm.touched ho key hb, hrowed.begun key hb⟩,
      fun key hr => ⟨hstate, hrowed.reverted key hr⟩⟩
  final ho _ := by
    rw [(hm.rowed ho).running]
    rfl }

def Unreverted (strict : Prop) (i : Nat) (w : World Q) : Prop := Own strict i w → ∀ key, (w.shards key).reverted = false

lemma Unreverted.later (hm : Unreverted strict i s) (h : Meanwhile strict i s t) : Unreverted strict i t :=
  h.kept (P := fun _ shards => ∀ key, (shards key).reverted = false) hm

/-- No shard of it has failed or was reverted. -/
structure Driving (strict : Prop) (i : Nat) (p : Pass) (m : DDLMigration Q) (w : World Q) : Prop
    extends Held strict i p m w where
  running : m.state = .running
  unfailed : ∀ key ∈ m.keys, (m.perShard key).state ≠ .failed
  unreverted : Unreverted strict i w

lemma Driving.later (hm : Driving strict i p m s) (h : Meanwhile strict i s t) : Driving strict i p m t :=
  ⟨hm.toHeld.later h, hm.running, hm.unfailed, hm.unreverted.later h⟩

/-- What the loop has in hand: every shard has come to this phase, and this one is at it. -/
structure Phasing (strict : Prop) (i : Nat) (p : Pass) (key : Key) (phase : Nat) (m₀ m : DDLMigration Q)
    (s : ShardMigration) (w : World Q) : Prop extends Posted strict i p w where
  strategy : m₀.strategy = .rewrite
  running : m₀.state = .running
  target : key ∈ m₀.keys
  phased : m₀.Phased w
  all : ∀ key' ∈ m₀.keys, phase ≤ (m₀.perShard key').step
  here : (m₀.perShard key).step = phase
  only : m₀.Only key m
  step : s.step = phase
  rowed : Own strict i w → Rowed m₀ w.row w.shards
  unreverted : Unreverted strict i w

namespace Phasing

variable {sm sm' : ShardMigration}

lemma later (h : Phasing strict i p key phase m₀ m sm s) (ht : Meanwhile strict i s t) :
    Phasing strict i p key phase m₀ m sm t :=
  { h with
    toPosted := h.toPosted.later ht
    phased := h.phased.grows ht.grows
    rowed := ht.kept (P := Rowed m₀) h.rowed
    unreverted := h.unreverted.later ht }

lemma entry (h : Phasing strict i p key phase m₀ m sm w) (sm' : ShardMigration) (hstep : sm'.step = phase) :
    Phasing strict i p key phase m₀ (m.setEntry key sm') sm' w :=
  { h with
    only := h.only.setEntry sm'
    step := hstep }

lemma touched_setEntry (hkey : key ∈ m.keys) (hstate : sm.state ≠ .pending) : (m.setEntry key sm).touched = true := by
  refine List.any_eq_true.mpr ⟨key, hkey, ?_⟩
  rw [DDLMigration.entry_setEntry]
  exact decide_eq_true hstate

lemma sure (h : Phasing strict i p key phase m₀ m sm w) (sm' : ShardMigration) (hstate : sm'.state ≠ .pending)
    (hstep : ∀ ph < sm'.step, ph ∈ (w.shards key).phases) : Sure strict i p (m.setEntry key sm') w := { h with
  strategy := by
    rw [DDLMigration.strategy_setEntry, h.only.strategy]
    exact h.strategy
  phased key' hkey' := by
    by_cases hk : key' = key
    · subst hk
      rw [DDLMigration.entry_setEntry]
      exact hstep
    · rw [DDLMigration.entry_setEntry_ne hk, h.only.entries key' hk]
      rw [DDLMigration.keys_setEntry, h.only.keys] at hkey'
      exact h.phased key' hkey'
  whole hc := by
    rw [DDLMigration.state_setEntry, h.only.state, h.running] at hc
    cases hc
  sees ho := by
    have hrowed := h.rowed ho
    have hkeys : (m.setEntry key sm').keys = m₀.keys := h.only.keys
    have hqueued : (m.setEntry key sm').state ≠ .queued := by
      rw [DDLMigration.state_setEntry, h.only.state, h.running]
      decide
    have htouched : (m.setEntry key sm').touched = true := touched_setEntry (h.only.keys.symm ▸ h.target) hstate
    exact ⟨fun key' hb => ⟨hqueued, htouched, hkeys.symm ▸ hrowed.begun key' hb⟩,
      fun key' hr => ⟨hqueued, hkeys.symm ▸ hrowed.reverted key' hr⟩⟩
  final ho _ := by
    rw [(h.rowed ho).running]
    rfl }

lemma at_step (h : Phasing strict i p key phase m₀ m sm w) (hstep : sm'.step = phase) :
    ∀ ph < sm'.step, ph ∈ (w.shards key).phases := by
  rw [hstep, ← h.here]
  exact h.phased key h.target

/-- What a call of its own leaves. -/
lemma called {shards : Key → ShardData Q} {cutovers : List (Key × List Key)} {concluded : List (Key × Bool)}
    (h : Phasing strict i p key phase m₀ m sm t) (hgrows : ∀ key, (t.shards key).Grows (shards key))
    (hbegun : ∀ key', (shards key').begun → (t.shards key').begun ∨ key' = key)
    (hreverted : ∀ key', (shards key').reverted = (t.shards key').reverted) :
    Phasing strict i p key phase m₀ m sm { t with shards, cutovers, concluded } :=
  { h with
    toPosted := h.toPosted.called
    phased := h.phased.grows hgrows
    rowed := fun ho => by
      have hrowed := h.rowed ho
      refine ⟨hrowed.running, hrowed.keys, fun key' hb => ?_, fun key' hr => hrowed.reverted key' (hreverted key' ▸ hr)⟩
      rcases hbegun key' hb with hb | rfl
      · exact hrowed.begun key' hb
      · exact h.target
    unreverted := fun ho key' => (hreverted key').trans (h.unreverted ho key') }

/-- What a save of the entry leaves. -/
lemma saved {r : Except SaveError Unit} (h : Phasing strict i p key phase m₀ m sm s) (sm' : ShardMigration)
    (hstep : sm'.step = phase) (hsaved : Saved strict i p (m.setEntry key sm') s r u) :
    Phasing strict i p key phase m₀ (m.setEntry key sm') sm' u := by
  obtain ⟨t, ht, ⟨rfl, -⟩ | ⟨-, -, -, rfl⟩⟩ := hsaved
  · exact (h.later ht).entry sm' hstep
  · have hnext := (h.later ht).entry sm' hstep
    exact { hnext with
      toPosted := hnext.toPosted.called
      rowed := fun ho => ⟨hnext.only.state.trans h.running, hnext.only.keys, (hnext.rowed ho).begun,
        (hnext.rowed ho).reverted⟩ }

end Phasing

/-- The phase is about to run: the row says that the shard is running. -/
structure Entered (strict : Prop) (i : Nat) (p : Pass) (key : Key) (phase : Nat) (m₀ m : DDLMigration Q)
    (sm : ShardMigration) (w : World Q) : Prop extends Phasing strict i p key phase m₀ m sm w where
  state : sm.state = .running
  touched : Own strict i w → w.row.touched = true

variable {sm sm' : ShardMigration}

lemma Entered.later (h : Entered strict i p key phase m₀ m sm s) (ht : Meanwhile strict i s t) :
    Entered strict i p key phase m₀ m sm t :=
  ⟨h.toPhasing.later ht, h.state, ht.kept (P := fun row _ => row.touched = true) h.touched⟩

/-- What a pass that leads may do to the shard it is at. -/
lemma Entered.traced (h : Entered strict i p key phase m₀ m sm t) (ho : Own strict i t)
    (hinv : Traced t) {f : ShardData Q → ShardData Q} (hsane : (f (t.shards key)).Sane false) : Traced (t.onShard key f) := by
  have hrowed := h.rowed ho
  have hkey : key ∈ t.row.keys := hrowed.keys.symm ▸ h.target
  have hqueued : t.row.state ≠ .queued := by
    rw [hrowed.running]
    decide
  refine hinv.onShard ?_ (fun _ => ⟨hqueued, h.touched ho, hkey⟩) fun _ => ⟨hqueued, hkey⟩
  exact hsane.final nofun

/-- A column that was added is there, or the shard cut over. -/
lemma Rowed.cut_of_missing (h : Rowed m t.row t.shards) (hunreverted : (t.shards key).reverted = false) (hinv : Traced t)
    (hadded : 0 ∈ (t.shards key).phases) (hmissing : (t.shards key).hidden = false) : (t.shards key).cut = true := by
  rcases (hinv.shards key).there hadded with hhidden | hcut | hreverted | hfinal
  · rw [hmissing] at hhidden
    cases hhidden
  · exact hcut
  · rw [hunreverted] at hreverted
    cases hreverted
  · rw [h.running] at hfinal
    cases hfinal

lemma Entered.sane (h : Entered strict i p key phase m₀ m sm t) (ho : Own strict i t)
    (hinv : Traced t) : (t.shards key).Sane false := by
  have hsane := hinv.shards key
  rw [(h.rowed ho).running] at hsane
  exact hsane

lemma Entered.onShard (h : Entered strict i p key phase m₀ m sm t) {f : ShardData Q → ShardData Q}
    (hgrows : (t.shards key).Grows (f (t.shards key)))
    (hreverted : (f (t.shards key)).reverted = (t.shards key).reverted) :
    Entered strict i p key phase m₀ m sm (t.onShard key f) :=
  ⟨h.toPhasing.called (World.Grows.onShard hgrows)
    (World.forall_onShard (P := fun key' d => d.begun → (t.shards key').begun ∨ key' = key) |>.mpr
      ⟨fun _ => .inr rfl, fun _ _ => .inl⟩)
    (World.forall_onShard (P := fun key' d => d.reverted = (t.shards key').reverted) |>.mpr
      ⟨hreverted, fun _ _ => rfl⟩), h.state, h.touched⟩

namespace ShardData

variable {d : ShardData Q}

lemma Sane.effect (h : d.Sane false) : (d.effect phase).Sane false := by
  unfold ShardData.effect
  split
  · exact ⟨fun _ => .inl rfl, h.swapped⟩
  · exact h

lemma Sane.succeed (h : d.Sane false) (hphase : phase ≠ rewriteCutover)
    (hadded : phase = 0 → d.hidden = true) : (d.succeed phase).Sane false := by
  refine ⟨fun h0 => ?_, fun h3 => ?_⟩
  · rcases List.mem_append.mp h0 with h0 | h0
    · exact h.there h0
    · exact .inl (hadded (List.mem_singleton.mp h0).symm)
  · rcases List.mem_append.mp h3 with h3 | h3
    · exact h.swapped h3
    · exact absurd (List.mem_singleton.mp h3).symm hphase

lemma sane_of_cut {final : Bool} (h : d.cut = true) : d.Sane final := ⟨fun _ => .inr (.inl h), fun _ => h⟩

lemma hidden_effect_zero (d : ShardData Q) (h : phase = 0) : (d.effect phase).hidden = true := by
  subst h
  rfl

@[simp] lemma reverted_effect (d : ShardData Q) : (d.effect phase).reverted = d.reverted := by
  unfold ShardData.effect
  split <;> rfl

lemma mem_succeed (d : ShardData Q) : phase ∈ (d.succeed phase).phases :=
  List.mem_append_right _ (List.mem_singleton_self _)

end ShardData

/-- What a run of the phase comes to. -/
def Ran (strict : Prop) (i : Nat) (p : Pass) (key : Key) (phase : Nat) (m₀ m : DDLMigration Q) (sm : ShardMigration) :
    Except Err ShardState → World Q → Prop
  | .ok outcome, u => outcome = .applied ∧ Phasing strict i p key phase m₀ m sm u ∧ phase ∈ (u.shards key).phases
  | .error e, u => e.skipped = false ∧ Phasing strict i p key phase m₀ m sm u

/-- What a call of the pass at the shard has to leave it as. -/
lemma Entered.done (h : Entered strict i p key phase m₀ m sm t) (howner : strict → t.owner = some i)
    (hinv : Rewritten strict t) {f : ShardData Q → ShardData Q} (hgrows : (t.shards key).Grows (f (t.shards key)))
    (hsane : strict → (f (t.shards key)).Sane false) :
    Rewritten strict (t.onShard key f) ∧ ∀ j, j ≠ i → Meanwhile strict j t (t.onShard key f) :=
  ⟨hinv.onShard hgrows fun hs => h.traced ⟨hs, howner hs⟩ (hinv.traced hs) (hsane hs),
    fun _ hne => .of_owned howner hne (.onShard hgrows)⟩

lemma Entered.acts (h : Entered strict i p key phase m₀ m sm t) (howner : strict → t.owner = some i)
    (hinv : Rewritten strict t) {f : ShardData Q → ShardData Q} {r : Except Err Unit} (hacts : Acts key phase f t r u)
    (hgrows : (t.shards key).Grows (f (t.shards key)))
    (hreverted : (f (t.shards key)).reverted = (t.shards key).reverted)
    (hsane : strict → (f (t.shards key)).Sane false ∧ ((f (t.shards key)).succeed phase).Sane false) :
    Rewritten strict u ∧ (∀ j, j ≠ i → Meanwhile strict j t u) ∧
      Ran strict i p key phase m₀ m sm (r.map fun _ => ShardState.applied) u := by
  rcases hacts with ⟨rfl, rfl⟩ | ⟨e, hskip, rfl, rfl | rfl⟩
  · have hgrows := hgrows.trans (ShardData.grows_succeed _ phase)
    obtain ⟨hu, hothers⟩ := h.done howner hinv (f := fun d => (f d).succeed phase) hgrows fun hs => (hsane hs).2
    refine ⟨hu, hothers, rfl, (h.onShard (f := fun d => (f d).succeed phase) hgrows hreverted).toPhasing, ?_⟩
    rw [World.shards_onShard]
    exact ShardData.mem_succeed _
  · exact ⟨hinv, fun j _ => .refl j u, hskip, h.toPhasing⟩
  · obtain ⟨hu, hothers⟩ := h.done howner hinv hgrows fun hs => (hsane hs).1
    exact ⟨hu, hothers, hskip, (h.onShard hgrows hreverted).toPhasing⟩

section

variable (hb : Guards strict b)

include hb

lemma safe_plainPhase (hphase : phase ≠ rewriteCutover) (h : Entered strict i p key phase m₀ m sm w) :
    (rewriteLogic strict b).Safe i
      (fun r u => Ran strict i p key phase m₀ m sm (r.map fun _ => ShardState.applied) u)
      (ask (.rewritePhase m key phase)) w := by
  intro t ht hinv x r u hx hexec
  have h := h.later ht
  have howner : strict → t.owner = some i := fun hs => hb.owned hs rfl hx
  refine h.acts howner hinv (exec_rewritePhase (i := i) hexec) (ShardData.grows_effect _ phase)
    (ShardData.reverted_effect _) fun hs => ?_
  have hsane : ((t.shards key).effect phase).Sane false := (h.sane ⟨hs, howner hs⟩ (hinv.traced hs)).effect
  exact ⟨hsane, hsane.succeed hphase fun h0 => ShardData.hidden_effect_zero _ h0⟩

lemma safe_swap (h : Entered strict i p key rewriteCutover m₀ m sm w) : (rewriteLogic strict b).Safe i
      (fun r u => Ran strict i p key rewriteCutover m₀ m sm (r.map fun _ => ShardState.applied) u)
      (ask (.swapColumns m key)) w := by
  intro t ht hinv x r u hx hexec
  have h := h.later ht
  have howner : strict → t.owner = some i := fun hs => hb.owned hs rfl hx
  exact h.acts howner hinv (exec_swapColumns (i := i) hexec) (ShardData.grows_swap _) rfl
    fun _ => ⟨ShardData.sane_of_cut rfl, ShardData.sane_of_cut rfl⟩

omit hb in
/-- Every shard has filled its column in when one cuts over. -/
lemma behind_nil (h : Phasing strict i p key rewriteCutover m₀ m sm w) : w.behind m = [] := by
  refine List.filter_eq_nil_iff.mpr fun key' hkey' => ?_
  rw [h.only.keys] at hkey'
  have hall : ∀ ph < rewriteCutover, ph ∈ (w.shards key').phases := fun ph hph =>
    h.phased key' hkey' ph (Nat.lt_of_lt_of_le hph (h.all key' hkey'))
  simpa using hall

lemma safe_cutover (h : Entered strict i p key rewriteCutover m₀ m sm w) :
    (rewriteLogic strict b).Safe i (Ran strict i p key rewriteCutover m₀ m sm) (cutover m key) w := by
  refine Logic.Safe.bind ?_
  intro t ht hinv x r u hx hexec
  have h := h.later ht
  have howner : strict → t.owner = some i := fun hs => hb.owned hs rfl hx
  have hcutovers : ∀ c ∈ t.cutovers ++ [(key, t.behind m)], c.2 = [] := by
    intro c hc
    rcases List.mem_append.mp hc with hc | hc
    · exact hinv.cutovers c hc
    · rw [List.mem_singleton.mp hc]
      exact behind_nil h.toPhasing
  rcases exec_columnExists (i := i) hexec with ⟨e, hskip, rfl, rfl⟩ | ⟨rfl, rfl⟩ | ⟨rfl, hhidden, rfl⟩
  · exact ⟨hinv, fun j _ => .refl j u, hskip, h.toPhasing⟩
  · refine ⟨{ hinv with cutovers := hcutovers, traced := fun hs => { (hinv.traced hs) with } }, fun j hne => ?_, ?_⟩
    · exact .of_owned howner hne (.of_eq rfl)
    · have hnext : Entered strict i p key rewriteCutover m₀ m sm
          { t with cutovers := t.cutovers ++ [(key, t.behind m)] } :=
        ⟨h.toPhasing.called (fun _ => {}) (fun _ => .inl) fun _ => rfl, h.state, h.touched⟩
      refine Logic.Safe.bind ((safe_swap hb hnext).imp fun r v hr => ?_)
      cases r <;> exact hr
  · have hgrows := ShardData.grows_succeed (t.shards key) rewriteCutover
    have hcut : strict → (t.shards key).cut = true := by
      intro hs
      have hadded : 0 ∈ (t.shards key).phases :=
        h.phased key h.target 0 (h.here.symm ▸ (by decide : 0 < rewriteCutover))
      exact (h.rowed ⟨hs, howner hs⟩).cut_of_missing (h.unreverted ⟨hs, howner hs⟩ key) (hinv.traced hs) hadded hhidden
    obtain ⟨hu, hothers⟩ := h.done howner hinv (f := (·.succeed rewriteCutover)) hgrows
      fun hs => ShardData.sane_of_cut (hcut hs)
    refine ⟨{ hu with cutovers := hcutovers, traced := fun hs => ?_ }, fun j hne => ?_, ?_⟩
    · refine { (hu.traced hs) with concluded := fun c hc => ?_ }
      rcases List.mem_append.mp hc with hc | hc
      · exact (hinv.traced hs).concluded c hc
      · rw [List.mem_singleton.mp hc]
        exact hcut hs
    · have hgrown : t.Grows (t.onShard key (·.succeed rewriteCutover)) := .onShard hgrows
      exact .of_owned howner hne (hgrown.trans (.of_eq rfl))
    · have hnext := h.onShard (f := (·.succeed rewriteCutover)) hgrows rfl
      refine ⟨rfl, hnext.toPhasing.called (fun _ => {}) (fun _ => .inl) fun _ => rfl, ?_⟩
      change rewriteCutover ∈ ((t.onShard key (·.succeed rewriteCutover)).shards key).phases
      rw [World.shards_onShard]
      exact ShardData.mem_succeed _

lemma safe_rewritePhase (h : Entered strict i p key phase m₀ m sm w) :
    (rewriteLogic strict b).Safe i (Ran strict i p key phase m₀ m sm) (rewritePhase key phase m) w := by
  unfold rewritePhase
  split
  · rename_i hcutover
    subst hcutover
    exact safe_cutover hb h
  · rename_i hphase
    refine Logic.Safe.bind ((safe_plainPhase hb hphase h).imp fun r u hr => ?_)
    cases r <;> exact hr

end

/-- What the loop ends with: the phase has come to an end on the shard, or the shard has failed, or the pass
has come to its own end. -/
def Come (strict : Prop) (i : Nat) (p : Pass) (key : Key) (phase : Nat) (m₀ m : DDLMigration Q) (sm : ShardMigration)
    (w : World Q) : Prop :=
  Phasing strict i p key phase m₀ m sm w ∧
    ((sm.state = .applied ∧ phase ∈ (w.shards key).phases) ∨ sm.state = .failed ∨ Deposed p.term w ∨
      w.cancelled i = true)

def phaseSpec (hb : Guards strict b) (m₀ : DDLMigration Q) : RetrySpec (rewriteLogic strict b) i p key
    (fun (_ : Unit) (m : DDLMigration Q) => do return (← rewritePhase key phase m, ())) where
  before m sm _ w := Phasing strict i p key phase m₀ m sm w
  recorded m sm _ w := Entered strict i p key phase m₀ m sm w
  failed m sm _ e w := Phasing strict i p key phase m₀ m sm w ∧ sm.state = .running ∧ e.skipped = false
  waiting m sm _ w := Phasing strict i p key phase m₀ m sm w
  after m sm w := Come strict i p key phase m₀ m sm w
  before_later hu h := h.later hu
  failed_later hu h := ⟨h.1.later hu, h.2⟩
  waiting_later hu h := h.later hu
  record {m sm _ w} h := by
    have hsure := h.sure sm.begun nofun (h.at_step h.step)
    refine (rewrite_save (.inl hsure)).imp fun r u hu => ?_
    have hnext := h.saved sm.begun h.step hu
    obtain ⟨t, ht, ⟨rfl, hne, hrefused⟩ | ⟨-, -, hne, rfl⟩⟩ := hu
    · split
      · exact ⟨hnext.entry sm h.step, .inr (.inr (.inl (deposed_of_refused (hrefused rfl) hnext.term)))⟩
      · rename_i e _
        exact ⟨hnext, rfl, by cases e <;> rfl⟩
      · exact absurd rfl hne
    · split
      · exact absurd rfl hne
      · rename_i e _
        exact ⟨hnext, rfl, by cases e <;> rfl⟩
      · have htouched : (m.setEntry key sm.begun).touched = true :=
          Phasing.touched_setEntry (h.only.keys.symm ▸ h.target) nofun
        exact ⟨hnext, rfl, fun _ => htouched⟩
  runs {m sm _ w} h := by
    refine Logic.Safe.bind ((safe_rewritePhase hb h).imp fun r u hr => ?_)
    cases r with
    | ok outcome =>
      obtain ⟨rfl, hphasing, hdone⟩ := hr
      exact ⟨{ hphasing with step := hphasing.step }, .inl ⟨rfl, hdone⟩⟩
    | error e => exact ⟨hr.2, h.state, hr.1⟩
  stopped h hdone := ⟨h.1, .inr (.inr (.inr hdone))⟩
  ends h hstate := by
    rcases hstate with ⟨-, hskip⟩ | rfl
    · rw [h.2.2] at hskip
      cases hskip
    · exact ⟨{ h.1 with step := h.1.step }, .inr (.inl rfl)⟩
  retry {m sm _ e w} h := by
    have hsure := h.1.sure (sm.hit m e .retrying) nofun (h.1.at_step h.1.step)
    refine (rewrite_save (.inl hsure)).imp fun r u hu => ?_
    have hnext := h.1.saved (sm.hit m e .retrying) h.1.step hu
    obtain ⟨t, ht, ⟨rfl, hne, hrefused⟩ | ⟨-, -, hne, rfl⟩⟩ := hu
    · split
      · exact ⟨hnext, .inr (.inr (.inl (deposed_of_refused (hrefused rfl) hnext.term)))⟩
      · exact hnext
    · split
      · exact absurd rfl hne
      · exact hnext
  woken h hdone := ⟨h, .inr (.inr (.inr hdone))⟩
  lost h hx hno := ⟨h, .inr (.inr (.inl (deposed_of_refused (hb.late hx hno) h.term)))⟩
  again h := h

end PgShard.Migration
