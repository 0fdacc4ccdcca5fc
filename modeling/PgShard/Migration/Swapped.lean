import PgShard.Migration.Cutover

/-!
# Runs of a rewrite

A pass drives the phases one after the other, and gives the rewrite up when a shard fails: the shards that
have not cut over are reverted before the row says so.
-/

namespace PgShard.Migration

open Interleave

variable {Q : Type} {strict : Prop} {b : Bounds (World Q) (Call Q) Luck Event} {i : Nat} {p : Pass}
  {m m₀ m' : DDLMigration Q} {s t u w : World Q} {key : Key} {phase : Nat} {sm sm' : ShardMigration}

/-! ### A rewrite that is given up -/

section

variable (hb : Guards strict b)

/-- What is known while the shards are asked: none of them was reverted. -/
def Asking (strict : Prop) (i : Nat) (p : Pass) (m : DDLMigration Q) (w : World Q) : Prop :=
  Held strict i p m w ∧ Unreverted strict i w

lemma Asking.later (h : Asking strict i p m s) (ht : Meanwhile strict i s t) : Asking strict i p m t :=
  ⟨h.1.later ht, h.2.later ht⟩

lemma Held.called {shards : Key → ShardData Q} {concluded : List (Key × Bool)} (h : Held strict i p m t)
    (hgrows : ∀ key, (t.shards key).Grows (shards key)) (hbegun : ∀ key, (shards key).begun → (t.shards key).begun)
    (hreverted : ∀ key, (shards key).reverted = true → (t.shards key).reverted = true ∨ key ∈ m.keys) :
    Held strict i p m { t with shards, concluded } := { h with
  toPosted := h.toPosted.called
  phased := h.phased.grows hgrows
  rowed ho := by
    have hrowed := h.rowed ho
    refine ⟨hrowed.running, hrowed.keys, fun key hb => hrowed.begun key (hbegun key hb), fun key hr => ?_⟩
    rcases hreverted key hr with hr | hkey
    · exact hrowed.reverted key hr
    · exact hkey
  touched ho key hb := h.touched ho key (hbegun key hb) }

include hb in
/-- A shard at the cutover whose column is missing has cut over. -/
lemma safe_asked {m' : DDLMigration Q} (h : Asking strict i p m w) (hkey : key ∈ m.keys)
    (hstep : (m.perShard key).step = rewriteCutover) :
    (rewriteLogic strict b).Safe i (fun _ u => Asking strict i p m u) (ask (.cutoverCommitted m' key)) w := by
  intro t ht hinv x r u hx hexec
  have h := h.later ht
  have howner : strict → t.owner = some i := fun hs => hb.owned hs rfl hx
  rcases exec_cutoverCommitted (i := i) hexec with rfl | ⟨hmissing, rfl⟩
  · exact ⟨hinv, fun j _ => .refl j u, h⟩
  · refine ⟨{ hinv with traced := fun hs => ?_ }, fun j hne => ?_, ?_⟩
    · have htraced := hinv.traced hs
      have hadded : 0 ∈ (t.shards key).phases := h.1.phased key hkey 0 (hstep.symm ▸ (by decide : 0 < rewriteCutover))
      rw [hb.finds hs hx, Bool.and_true] at hmissing
      have hcut := (h.1.rowed ⟨hs, howner hs⟩).cut_of_missing (h.2 ⟨hs, howner hs⟩ key) htraced hadded hmissing
      refine { htraced with concluded := fun c hc => ?_ }
      rcases List.mem_append.mp hc with hc | hc
      · exact htraced.concluded c hc
      · rw [List.mem_singleton.mp hc]
        exact hcut
    · exact .of_owned howner hne (.of_eq rfl)
    · exact ⟨h.1.called (fun _ => {}) (fun _ => id) fun _ => .inl, h.2⟩

include hb in
lemma safe_cutOverShards (h : Asking strict i p m w) {keys : List Key} (hkeys : ∀ key ∈ keys, key ∈ m.keys)
    (state : MigrationState) (error : String) :
    (rewriteLogic strict b).Safe i (fun es u => Asking strict i p m u ∧ es.map Prod.fst = keys)
      (cutOverShards { m with state := state, error := error } keys) w := by
  induction keys generalizing w with
  | nil => exact ⟨h, rfl⟩
  | cons key keys ih =>
    have hrest : ∀ key' ∈ keys, key' ∈ m.keys := fun key' hk => hkeys key' (List.mem_cons_of_mem key hk)
    have hone : (rewriteLogic strict b).Safe i (fun _ u => Asking strict i p m u)
        (cutOverShard { m with state := state, error := error } key) w := by
      unfold cutOverShard
      split
      · exact h
      rename_i hle
      split
      · exact h
      rename_i hge
      have hstep : (m.perShard key).step = rewriteCutover := Nat.le_antisymm (Nat.not_lt.mp hle) (Nat.not_lt.mp hge)
      refine Logic.Safe.bind ((safe_asked hb h (hkeys key List.mem_cons_self) hstep).imp fun r u hu => ?_)
      split <;> exact hu
    refine Logic.Safe.bind (hone.imp fun _ u hu => ?_)
    refine Logic.Safe.bind ((ih hu hrest).imp fun es v hv => ?_)
    exact ⟨hv.1, congrArg (key :: ·) hv.2⟩

lemma given_state (sm : ShardMigration) (state : RewriteSchemaState) : (sm.given state).state = .failed := by
  cases state <;> rfl

lemma given_step (sm : ShardMigration) (state : RewriteSchemaState) : (sm.given state).step = sm.step := by
  cases state <;> rfl

/-- The entry of a shard says that it has failed, at the phase it was at. -/
lemma Held.setFailed (h : Held strict i p m w) (hkey : key ∈ m.keys) (hstate : sm.state = .failed)
    (hstep : sm.step = (m.perShard key).step) : Held strict i p (m.setEntry key sm) w :=
  { h with
    phased := fun key' hkey' => by
      by_cases hk : key' = key
      · subst hk
        rw [DDLMigration.entry_setEntry, hstep]
        exact h.phased key' hkey'
      · rw [DDLMigration.entry_setEntry_ne hk]
        exact h.phased key' hkey'
    rowed := fun ho => { (h.rowed ho) with }
    touched := fun _ _ _ => Phasing.touched_setEntry hkey (by rw [hstate]; decide) }

lemma ShardData.Sane.revert {d : ShardData Q} {final : Bool} (h : d.Sane final) : d.revert.Sane final :=
  ⟨fun _ => .inr (.inr (.inl rfl)), h.swapped⟩

lemma ShardData.begun_revert {d : ShardData Q} (h : d.revert.begun) : d.begun := by
  rcases h with h | h
  · exact .inl h
  · cases h

include hb in
lemma safe_revert {m' : DDLMigration Q} (h : Held strict i p m w) (hkey : key ∈ m.keys) :
    (rewriteLogic strict b).Safe i (fun _ u => Held strict i p m u) (ask (.revertRewrite m' key)) w := by
  intro t ht hinv x r u hx hexec
  have h := h.later ht
  have howner : strict → t.owner = some i := fun hs => hb.owned hs rfl hx
  have hgrows : (t.shards key).Grows (t.shards key).revert := { reverted := fun _ => rfl }
  rcases exec_revertRewrite (i := i) hexec with rfl | rfl
  · exact ⟨hinv, fun j _ => .refl j u, h⟩
  · refine ⟨hinv.onShard hgrows fun hs => ?_, fun j hne => ?_, ?_⟩
    · have hrowed := h.rowed ⟨hs, howner hs⟩
      have htraced := hinv.traced hs
      refine htraced.onShard (htraced.shards key).revert
        (fun hb => htraced.sees.begun key (ShardData.begun_revert hb)) fun _ => ⟨?_, hrowed.keys.symm ▸ hkey⟩
      rw [hrowed.running]
      decide
    · exact .of_owned howner hne (.onShard hgrows)
    · exact h.called (World.Grows.onShard hgrows)
        (World.forall_onShard (P := fun key' d => d.begun → (t.shards key').begun) |>.mpr
          ⟨ShardData.begun_revert, fun _ _ => id⟩)
        (World.forall_onShard (P := fun key' d => d.reverted = true → (t.shards key').reverted = true ∨ key' ∈ m.keys) |>.mpr
          ⟨fun _ => .inr hkey, fun _ _ => .inl⟩)

include hb in
lemma safe_revertShards {es : List (Key × RewriteSchemaState)} (h : Held strict i p m w)
    (hkeys : ∀ e ∈ es, e.1 ∈ m.keys) :
    (rewriteLogic strict b).Safe i (fun m' u => Held strict i p m' u) (revertShards es m) w := by
  induction es generalizing m w with
  | nil => exact h
  | cons e es ih =>
    obtain ⟨key, state⟩ := e
    have hkey : key ∈ m.keys := hkeys _ List.mem_cons_self
    have hrest : ∀ e ∈ es, e.1 ∈ m.keys := fun e he => hkeys e (List.mem_cons_of_mem _ he)
    have hnext : Held strict i p (m.setEntry key ((m.perShard key).given state)) w :=
      h.setFailed hkey (given_state _ _) (given_step _ _)
    unfold revertShards
    dsimp only
    split
    · exact Logic.Safe.bind ((safe_revert hb hnext hkey).imp fun _ u hu => ih hu hrest)
    · exact ih hnext hrest

include hb in
lemma safe_failRewrite (h : Asking strict i p m w) (msg : String) :
    (rewriteLogic strict b).Safe i (fun _ _ => True) (failRewrite p m msg) w := by
  refine Logic.Safe.bind ((safe_cutOverShards hb h (fun _ hk => hk) .failed msg).imp fun es u hu => ?_)
  obtain ⟨⟨hheld, -⟩, hkeys⟩ := hu
  have hgiven : Held strict i p (failedWith m msg es) u :=
    { hheld with
      state := .inr rfl
      rowed := fun ho => { (hheld.rowed ho) with } }
  have hin : ∀ e ∈ es, e.1 ∈ m.keys := fun e he => hkeys ▸ List.mem_map_of_mem he
  refine Logic.Safe.bind ((safe_revertShards hb hgiven hin).imp fun m' v hv => ?_)
  exact Logic.Safe.bind ((rewrite_save (.inl hv.sure)).imp fun _ _ _ => trivial)

end

section

variable (hb : Guards strict b)

/-- What a save of the shard's entry leaves in hand. -/
lemma Phasing.held (h : Phasing strict i p key phase m₀ m sm t) (hstate : sm'.state ≠ .pending)
    (hsure : Sure strict i p (m.setEntry key sm') t) :
    Asking strict i p (m.setEntry key sm') { t with row := t.saved (m.setEntry key sm') } := by
  have hrunning : (m.setEntry key sm').state = .running := h.only.state.trans h.running
  have hkeys : (m.setEntry key sm').keys = m₀.keys := h.only.keys
  refine ⟨?_, h.unreverted⟩
  exact {
    toPosted := h.toPosted.called
    strategy := hsure.strategy
    state := .inl hrunning
    phased := hsure.phased
    rowed := fun ho => ⟨hrunning, rfl, fun key' hb => hkeys.symm ▸ (h.rowed ho).begun key' hb,
      fun key' hr => hkeys.symm ▸ (h.rowed ho).reverted key' hr⟩
    touched := fun _ _ _ => touched_setEntry (h.only.keys.symm ▸ h.target) hstate }

lemma reached_applied (phase : Nat) (hstate : sm.state = .applied) :
    (sm.reached phase).step = phase + 1 ∧ (sm.reached phase).state ≠ .pending ∧ (sm.reached phase).state ≠ .failed := by
  unfold ShardMigration.reached
  rw [if_neg (by rw [hstate]; decide)]
  split
  · exact ⟨rfl, nofun, nofun⟩
  · exact ⟨rfl, by rw [hstate]; decide, by rw [hstate]; decide⟩

lemma reached_failed (phase : Nat) (hstate : sm.state = .failed) : sm.reached phase = sm := by
  unfold ShardMigration.reached
  rw [if_pos hstate]

/-- The phase has come to an end on every shard. -/
def Passed (strict : Prop) (i : Nat) (p : Pass) (keys : List Key) (phase : Nat) (r : Option (DDLMigration Q))
    (w : World Q) : Prop :=
  ∀ m, r = some m → Driving strict i p m w ∧ m.keys = keys ∧ ∀ key ∈ keys, phase < (m.perShard key).step

lemma passed_none {keys : List Key} : Passed (Q := Q) strict i p keys phase none w := fun _ h => nomatch h

include hb

lemma safe_phaseShards {keys : List Key} (done : List Key) (h : Driving strict i p m w) (hkeys : m.keys = done ++ keys)
    (hdone : ∀ key ∈ done, phase < (m.perShard key).step) (hall : ∀ key ∈ m.keys, phase ≤ (m.perShard key).step) :
    (rewriteLogic strict b).Safe i (Passed strict i p m.keys phase) (phaseShards p phase keys m) w := by
  induction keys generalizing m w done with
  | nil =>
    intro m' hm'
    cases hm'
    rw [List.append_nil] at hkeys
    exact ⟨h, rfl, hkeys ▸ hdone⟩
  | cons key keys ih =>
    have hin : key ∈ m.keys := by simp [hkeys]
    have hsplit : m.keys = (done ++ [key]) ++ keys := by simp [hkeys]
    unfold phaseShards
    dsimp only
    split
    · rename_i hskip
      simp only [Bool.or_eq_true, decide_eq_true_eq] at hskip
      have hpast := hskip.resolve_left (h.unfailed key hin)
      refine ih (done ++ [key]) h hsplit (fun key' hkey' => ?_) hall
      rcases List.mem_append.mp hkey' with hkey' | hkey'
      · exact hdone key' hkey'
      · rw [List.mem_singleton.mp hkey']
        exact hpast
    rename_i hnot
    simp only [Bool.or_eq_true, decide_eq_true_eq, not_or] at hnot
    have hhere : (m.perShard key).step = phase := Nat.le_antisymm (Nat.not_lt.mp hnot.2) (hall key hin)
    refine safe_look_bind rfl fun x t leads ht _ _ _ => ?_
    split
    · exact passed_none
    have h := h.later ht
    have hphasing : Phasing strict i p key phase m m (m.perShard key) t :=
      ⟨h.toPosted, h.strategy, h.running, hin, h.phased, hall, hhere, .refl key m, hhere, h.rowed, h.unreverted⟩
    refine Logic.Safe.bind (((phaseSpec hb m).safe_retrying hphasing).imp fun ms u hu => ?_)
    obtain ⟨m', s'⟩ := ms
    obtain ⟨hu, hcome⟩ := hu
    refine safe_look_bind rfl fun x v done' hv _ _ hexec => ?_
    cases hexec
    split
    · exact passed_none
    rename_i hgoes
    have hu := hu.later hv
    -- the pass goes on, so the shard has come through, or has failed, or the write is refused
    have hcome : (s'.state = .applied ∧ phase ∈ (v.shards key).phases) ∨ s'.state = .failed ∨ Deposed p.term v := by
      rcases hcome with ⟨happlied, hphase⟩ | hfailed | hdeposed | hcancelled
      · exact .inl ⟨happlied, (hv.grows key).phases.subset hphase⟩
      · exact .inr (.inl hfailed)
      · exact .inr (.inr (hv.later.deposed hdeposed))
      · exact absurd (hv.later.cancelled hcancelled) hgoes
    have hsure : Sure strict i p (m'.setEntry key (s'.reached phase)) v ∨ Deposed p.term v := by
      rcases hcome with ⟨happlied, hphase⟩ | hfailed | hdeposed
      · obtain ⟨hstep, hpending, -⟩ := reached_applied phase happlied
        refine .inl (hu.sure _ hpending fun ph hph => ?_)
        rw [hstep] at hph
        rcases Nat.lt_succ_iff_lt_or_eq.mp hph with hlt | rfl
        · exact hu.at_step hu.step ph (hu.step.symm ▸ hlt)
        · exact hphase
      · rw [reached_failed phase hfailed]
        exact .inl (hu.sure _ (by rw [hfailed]; decide) (hu.at_step hu.step))
      · exact .inr hdeposed
    refine Logic.Safe.bind ((rewrite_save hsure).imp fun r z hz => ?_)
    cases r with
    | error e => exact passed_none
    | ok _ =>
      obtain ⟨y, hy, ⟨-, hne, -⟩ | ⟨hsure, haccepts, -, rfl⟩⟩ := hz
      · exact absurd rfl hne
      have hu := hu.later hy
      rcases hcome with ⟨happlied, -⟩ | hfailed | hdeposed
      · obtain ⟨hstep, hpending, hunfailed⟩ := reached_applied phase happlied
        dsimp only
        rw [if_neg hunfailed]
        obtain ⟨hheld, hunreverted⟩ := hu.held hpending hsure
        have hkeys' : (m'.setEntry key (s'.reached phase)).keys = m.keys := hu.only.keys
        have hentry : ∀ key', key' ≠ key → (m'.setEntry key (s'.reached phase)).perShard key' = m.perShard key' :=
          fun key' hk => (DDLMigration.entry_setEntry_ne hk).trans (hu.only.entries key' hk)
        rw [← hkeys']
        refine ih (done ++ [key]) ⟨hheld, hu.only.state.trans hu.running, fun key' hkey' => ?_, hunreverted⟩ (hkeys'.trans hsplit)
          (fun key' hkey' => ?_) fun key' hkey' => ?_
        all_goals by_cases hk : key' = key
        · subst hk
          rw [DDLMigration.entry_setEntry]
          exact hunfailed
        · rw [hentry key' hk]
          exact h.unfailed key' (hkeys' ▸ hkey')
        · subst hk
          rw [DDLMigration.entry_setEntry, hstep]
          exact Nat.lt_succ_self phase
        · rw [hentry key' hk]
          refine hdone key' ?_
          simpa [hk] using hkey'
        · subst hk
          rw [DDLMigration.entry_setEntry, hstep]
          exact Nat.le_succ phase
        · rw [hentry key' hk]
          exact hall key' (hkeys' ▸ hkey')
      · have hreached := reached_failed phase hfailed
        dsimp only
        rw [hreached] at hsure ⊢
        rw [if_pos hfailed]
        have hasking := hu.held (by rw [hfailed]; decide) hsure
        exact Logic.Safe.bind ((safe_failRewrite hb hasking _).imp fun _ _ _ => passed_none)
      · rw [(hy.later.deposed hdeposed).refused] at haccepts
        cases haccepts

lemma safe_phases (phase n : Nat) (h : Driving strict i p m w) (hall : ∀ key ∈ m.keys, phase ≤ (m.perShard key).step) :
    (rewriteLogic strict b).Safe i
      (fun r u => ∀ m', r = some m' → Driving strict i p m' u ∧ ∀ key ∈ m'.keys, phase + n ≤ (m'.perShard key).step)
      (phases p (List.range' phase n) m) w := by
  induction n generalizing m w phase with
  | zero => exact fun m' hm' => Option.some.inj hm' ▸ ⟨h, hall⟩
  | succ n ih =>
    refine Logic.Safe.bind ((safe_phaseShards hb [] h rfl nofun hall).imp fun r u hr => ?_)
    cases r with
    | none => exact fun _ hm' => nomatch hm'
    | some m' =>
      obtain ⟨hdriving, hkeys, hpast⟩ := hr m' rfl
      refine (ih _ hdriving (hkeys ▸ hpast)).imp fun r v hv m'' hm'' => ?_
      obtain ⟨hdriving', hall'⟩ := hv m'' hm''
      refine ⟨hdriving', fun key hkey => ?_⟩
      have hstep := hall' key hkey
      omega

end

section

section

variable (h : Driving strict i p m w)

include h

/-- The columns routers show are beside what is known of a row. -/
lemma Driving.columns (rewrite : RewriteChange) : Driving strict i p { m with rewrite := rewrite } w :=
  { h with rowed := fun ho => { (h.rowed ho) with } }

lemma safe_saveMeta {m' : DDLMigration Q} :
    (rewriteLogic strict b).Safe i (fun _ u => Driving strict i p m u) (ask (.saveMeta p.term m')) w := by
  intro t ht hinv x r u _ hexec
  have h := h.later ht
  rcases World.write_cases (Option.some.inj hexec) with ⟨rfl, -⟩ | ⟨haccepts, rfl, -⟩
  · exact ⟨hinv, fun j _ => .refl j u, h⟩
  · refine ⟨{ hinv with traced := fun hs => ?_ }, fun j hne => ?_, ?_⟩
    · exact { (hinv.traced hs) with sees := { (hinv.traced hs).sees with } }
    · exact ⟨{}, .of_eq rfl, fun hs => .of_owner ((h.led hs).accepts_iff.mp haccepts) hne⟩
    · exact { h with
        toPosted := h.toPosted.called
        rowed := fun ho => { (h.rowed ho) with } }

lemma safe_settleColumns :
    (rewriteLogic strict b).Safe i (fun r u => Driving strict i p r.1 u) (settleColumns p m) w := by
  refine safe_look_bind rfl fun x t r ht _ _ _ => ?_
  have h := h.later ht
  cases r with
  | error _ => exact h
  | ok _ =>
    refine Logic.Safe.bind ((safe_saveMeta (h.columns { m.rewrite with settled := true })).imp
      fun r u hu => ?_)
    cases r <;> exact hu

lemma safe_recordRewriteColumns :
    (rewriteLogic strict b).Safe i (fun r u => Driving strict i p r.1 u) (recordRewriteColumns p m) w := by
  unfold recordRewriteColumns
  split
  · exact h
  split
  · exact safe_settleColumns h
  refine safe_look_bind rfl fun x t r ht _ _ _ => ?_
  have h := h.later ht
  split
  · exact h
  · exact h
  · rename_i columns _ _
    have hcolumns : Driving strict i p (setColumns m columns) t := h.columns _
    refine Logic.Safe.bind ((safe_saveMeta hcolumns).imp fun r u hu => ?_)
    cases r with
    | error e => exact hu
    | ok _ => exact safe_settleColumns hu

end

lemma safe_driveRewrite (hb : Guards strict b) (h : Driving strict i p m w) :
    (rewriteLogic strict b).Safe i (fun _ _ => True) (driveRewrite p m) w := by
  refine Logic.Safe.bind ((safe_recordRewriteColumns h).imp fun r u hu => ?_)
  obtain ⟨m', e⟩ := r
  cases e with
  | some e => exact safe_failRewrite hb ⟨hu.toHeld, hu.unreverted⟩ _
  | none =>
    have hphases := safe_phases hb 0 rewriteDone hu fun _ _ => Nat.zero_le _
    rw [← List.range_eq_range'] at hphases
    refine Logic.Safe.bind (hphases.imp fun r v hv => ?_)
    cases r with
    | none => trivial
    | some m'' =>
      obtain ⟨hdriving, hall⟩ := hv m'' rfl
      have hsure : Sure strict i p { m'' with state := .complete, error := "" } v :=
        { hdriving.sure with
          whole := fun _ key hkey => Nat.lt_of_lt_of_le (by decide) (hall key hkey)
          sees := fun ho => ⟨fun key hb => ⟨nofun, hdriving.touched ho key hb, (hdriving.rowed ho).begun key hb⟩,
            fun key hr => ⟨nofun, (hdriving.rowed ho).reverted key hr⟩⟩
          final := fun _ hopen => nomatch hopen }
      exact Logic.Safe.bind ((rewrite_save (.inl hsure)).imp fun _ _ _ => trivial)

end

section

/-- What is known of a row that was loaded. -/
structure Loaded (strict : Prop) (i : Nat) (p : Pass) (m : DDLMigration Q) (w : World Q) : Prop where
  sure : Sure strict i p m w
  unfailed : m.state = .running → ∀ key ∈ m.keys, (m.perShard key).state ≠ .failed
  unreverted : Unreverted strict i w
  rowed : Own strict i w → m.state = .running → Rowed m w.row w.shards

lemma Loaded.later (hm : Loaded strict i p m s) (h : Meanwhile strict i s t) : Loaded strict i p m t :=
  ⟨hm.sure.later h, hm.unfailed, hm.unreverted.later h,
    h.kept (P := fun row shards => m.state = .running → Rowed m row shards) hm.rowed⟩

lemma Loaded.driving (hm : Loaded strict i p m w) (hrunning : m.state = .running) : Driving strict i p m w := { hm with
  toPosted := hm.sure.toPosted
  strategy := hm.sure.strategy
  state := .inl hrunning
  phased := hm.sure.phased
  rowed ho := hm.rowed ho hrunning
  touched ho key hb := ((hm.sure.sees ho).begun key hb).2.1
  running := hrunning
  unfailed := hm.unfailed hrunning }

/-- The row that sees what was begun is the one in hand. -/
lemma DDLMigration.Sees.rowed {shards : Key → ShardData Q} {row : DDLMigration Q} (h : m.Sees shards)
    (hrunning : row.state = .running) (hkeys : row.keys = m.keys) : Rowed m row shards :=
  ⟨hrunning, hkeys, fun key hb => (h.begun key hb).2.2, fun key hr => (h.reverted key hr).2⟩

lemma Loaded.saved {r : Except SaveError Unit} (hm : Loaded strict i p m s) (hsaved : Saved strict i p m s r u) :
    Loaded strict i p m u := by
  obtain ⟨t, ht, ⟨rfl, -⟩ | ⟨hsure, -, -, rfl⟩⟩ := hsaved
  · exact hm.later ht
  · have hm := hm.later ht
    exact { hm with
      sure := { hsure with
        toPosted := hsure.toPosted.called
        final := fun _ => id }
      rowed := fun ho hrunning => (hsure.sees ho).rowed hrunning rfl }

lemma loaded_row (hb : Guards strict b) {x : Luck} (hposted : Posted strict i p w)
    (hinv : Rewritten strict w) (hx : b.call x i .pending w) (hpending : w.row.state = .queued ∨ w.row.state = .running) :
    Loaded strict i p w.row w where
  sure := { hposted, hinv with
    sees := fun ho => (hinv.traced ho.1).sees
    final := fun _ => id }
  unfailed := hb.loads hx
  unreverted ho key := by
    cases hrev : (w.shards key).reverted with
    | false => rfl
    | true =>
      obtain ⟨hqueued, hkey⟩ := (hinv.traced ho.1).sees.reverted key hrev
      rw [hb.reverts ho.1 hx (hpending.resolve_left hqueued) key hkey] at hrev
      cases hrev
  rowed ho hrunning := (hinv.traced ho.1).sees.rowed hrunning rfl

lemma Loaded.replan (hm : Loaded strict i p m w) (hpending : m.state = .queued ∨ m.state = .running)
    (huntouched : m.touched = false) : Loaded strict i p { m with state := .queued, shardSet := "" } w := { hm with
  sure := { hm.sure with
    whole := fun h => nomatch h
    sees := fun ho => by
      refine ⟨fun key hb => ?_, fun key hr => ?_⟩
      · have htouched := ((hm.sure.sees ho).begun key hb).2.1
        rw [huntouched] at htouched
        cases htouched
      · rw [hm.unreverted ho key] at hr
        cases hr
    final := fun ho _ => hm.sure.final ho (by rcases hpending with h | h <;> rw [h] <;> rfl) }
  unfailed h := nomatch h
  rowed _ h := nomatch h }

lemma Loaded.begins (hm : Loaded strict i p m w) (hqueued : m.state = .queued) (serving : String) (keys : List Key) :
    (rewriteLogic strict b).Safe i (fun r u => r = .ok () → Driving strict i p (m.fresh serving keys) u)
      (ask (.save p.term (m.fresh serving keys))) w := by
  have hsees : ∀ {t : World Q}, Loaded strict i p m t → Own strict i t → (m.fresh serving keys).Sees t.shards :=
    fun hm ho => ⟨fun key hb => absurd hqueued ((hm.sure.sees ho).begun key hb).1, fun key hr => by
      rw [hm.unreverted ho key] at hr
      cases hr⟩
  have hsure : Sure strict i p (m.fresh serving keys) w :=
    { hm.sure with
      phased := fun _ _ _ hph => nomatch hph
      whole := fun h => nomatch h
      sees := hsees hm
      final := fun ho _ => hm.sure.final ho (by rw [hqueued]; rfl) }
  refine (rewrite_save (.inl hsure)).imp fun r u hu hok => ?_
  obtain ⟨t, ht, ⟨-, hne, -⟩ | ⟨hsure, -, -, rfl⟩⟩ := hu
  · exact absurd hok hne
  have hm := hm.later ht
  exact {
    toPosted := hsure.toPosted.called
    strategy := hsure.strategy
    state := .inl rfl
    phased := hsure.phased
    rowed := fun ho => (hsees hm ho).rowed rfl rfl
    touched := fun ho key hb => ((hsees hm ho).begun key hb).2.1
    running := rfl
    unfailed := fun _ _ h => nomatch h
    unreverted := hm.unreverted }

/-- Nothing is driven. -/
structure Idle (strict : Prop) (i : Nat) (p : Pass) (w : World Q) : Prop extends Posted strict i p w where
  idle : Own strict i w → w.row.state ≠ .running

lemma Idle.later (hw : Idle strict i p s) (h : Meanwhile strict i s t) : Idle strict i p t :=
  ⟨hw.toPosted.later h, h.kept (P := fun row _ => row.state ≠ .running) hw.idle⟩

lemma ShardData.begun_swept {d : ShardData Q} (h : d.swept.begun) : d.begun := by
  rcases h with h | h
  · exact .inl h
  · cases h

/-- A sweep takes only what is of no use any more. -/
lemma Traced.swept (h : Traced t) (hidle : t.row.state ≠ .running) (key : Key) :
    Traced (t.onShard key ShardData.swept) := by
  refine h.onShard ⟨fun h0 => ?_, (h.shards key).swapped⟩
    (fun hb => h.sees.begun key (ShardData.begun_swept hb)) fun hr => h.sees.reverted key hr
  have hqueued := (h.sees.begun key (.inl (List.ne_nil_of_mem h0))).1
  refine .inr (.inr (.inr ?_))
  cases hstate : t.row.state with
  | queued => exact absurd hstate hqueued
  | running => exact absurd hstate hidle
  | complete => rfl
  | failed => rfl

lemma safe_sweep_idle (hb : Guards strict b) (h : Idle strict i p w) :
    (rewriteLogic strict b).Safe i (fun _ u => Idle strict i p u) (ask (.sweepShard key)) w := by
  intro t ht hinv x r u hx hexec
  have howner : strict → t.owner = some i := fun hs => hb.owned hs rfl hx
  have h := h.later ht
  have hgrows : (t.shards key).Grows (t.shards key).swept := {}
  rcases exec_sweepShard (i := i) hexec with rfl | rfl
  · exact ⟨hinv, fun j _ => .refl j u, h⟩
  · refine ⟨hinv.onShard hgrows fun hs => (hinv.traced hs).swept (h.idle ⟨hs, howner hs⟩) key, fun j hne => ?_, ?_⟩
    · exact .of_owned howner hne (.onShard hgrows)
    · exact ⟨h.toPosted.called, h.idle⟩

lemma safe_returned_rewrite : (rewriteLogic strict b).Safe i (fun _ _ => True) (ask .returned) w := by
  intro t _ hinv x r u _ hexec
  cases hexec
  refine ⟨?_, fun j hne => ?_, trivial⟩
  · split
    · exact { hinv with traced := fun hs => { (hinv.traced hs) with } }
    · exact hinv
  · refine ⟨?_, ?_, fun _ => .returned hne⟩
    · split
      · exact ⟨.refl, id⟩
      · exact {}
    · split
      · exact .of_eq rfl
      · exact .refl t

def rewriteSpec (hb : Guards strict b) (i : Nat) (p : Pass) : PassSpec (Q := Q) (rewriteLogic strict b) i p where
  good := Loaded strict i p
  good_later h hm := hm.later h
  saves hm := (rewrite_save (.inl hm.sure)).imp fun _ _ hu => hm.saved hu
  here := Posted strict i p
  idle := Idle strict i p
  driven := Driving strict i p
  here_later h hw := hw.later h
  idle_later h hw := hw.later h
  loaded hw hinv hx hfound := by
    obtain ⟨rfl, hpending⟩ := pendingRow_some hfound
    exact loaded_row hb hw hinv hx hpending
  unloaded hw _ hnone := ⟨hw, fun _ hrunning => by simp [World.pendingRow, hrunning] at hnone⟩
  failed error hm := {
    sure := { hm.sure with
      whole := fun h => nomatch h
      sees := fun ho => ⟨fun key hb => ⟨nofun, ((hm.sure.sees ho).begun key hb).2⟩,
        fun key hr => ⟨nofun, ((hm.sure.sees ho).reverted key hr).2⟩⟩
      final := fun _ h => nomatch h }
    unfailed := fun h => nomatch h
    unreverted := hm.unreverted
    rowed := fun _ h => nomatch h }
  rehome home hm := { hm with
    sure := { hm.sure with sees := fun ho => { (hm.sure.sees ho) with } }
    rowed := fun ho hr => { (hm.rowed ho hr) with } }
  replan hpending huntouched hm := hm.replan hpending huntouched
  begins serving keys hqueued hm := hm.begins hqueued serving keys
  resumes hm hrunning := hm.driving hrunning
  sweeps _ hw := safe_sweep_idle hb hw
  returns _ := safe_returned_rewrite
  drives hm _ := by
    unfold driveBegun
    rw [if_pos hm.strategy]
    exact safe_driveRewrite hb hm

lemma worldSafe_rewrite (hb : Guards strict b) : (rewriteLogic (Q := Q) strict b).WorldSafe := by
  intro e n w hinv hevent
  have hspares : w.Spares (happen e n w).2 := happen_spares e n w
  refine ⟨?_, fun j hj => .happen e n w hj, fun task htask => ?_⟩
  · refine ⟨hspares.row ▸ hinv.strategy, ?_, hspares.row ▸ hinv.whole, hspares.cutovers ▸ hinv.cutovers, fun hs => ?_⟩
    · change (happen e n w).2.row.Phased (happen e n w).2
      rw [hspares.row]
      exact hinv.phased.grows (.of_eq hspares.shards)
    · have htraced := hinv.traced hs
      refine ⟨Nat.lt_of_lt_of_le htraced.term hspares.term, hspares.concluded ▸ htraced.concluded, fun key => ?_, ?_⟩
      · change ((happen e n w).2.shards key).Sane (happen e n w).2.row.state.final
        rw [hspares.shards, hspares.row]
        exact htraced.shards key
      · change (happen e n w).2.row.Sees (happen e n w).2.shards
        rw [hspares.row, hspares.shards]
        exact htraced.sees
  · rcases happen_begins htask with ⟨catalog, rfl, rfl, -, hstore⟩ | ⟨catalog, rfl, rfl, hstore⟩
    · refine (rewriteSpec hb n _).safe_runOnce ⟨Nat.le_of_eq (congrArg World.term hstore).symm, fun hs => ?_⟩
      change Led n _ (happen _ n w).2
      rw [hstore]
      exact ⟨Nat.ne_of_gt (hinv.traced hs).term, fun _ => rfl, .inl rfl⟩
    · exact (rewriteSpec hb n _).safe_runOnce ⟨Nat.zero_le _, fun hs => nomatch hb.led hs hevent⟩

/-- The row and the shards before a rewrite begins. -/
structure Untouched (w : World Q) : Prop where
  strategy : w.row.strategy = .rewrite
  queued : w.row.state = .queued
  keys : w.row.keys = []
  cutovers : w.cutovers = []

lemma rewritten_start (strict : Prop) (hw : Untouched w) (htraced : strict → Traced w) : Rewritten strict w := by
  refine ⟨hw.strategy, fun key hkey => ?_, fun h => ?_, fun c hc => ?_, htraced⟩
  · rw [hw.keys] at hkey
    cases hkey
  · rw [hw.queued] at h
    cases h
  · rw [hw.cutovers] at hc
    cases hc

lemma rewritten_run (hb : Guards strict b) (hw : Rewritten strict w) (moves : List (Move Luck Event))
    (hmoves : b.Along (host Q) ⟨w, []⟩ moves) : Rewritten strict (Tasks.run (host Q) ⟨w, []⟩ moves).store := by
  have hstart : (rewriteLogic strict b).Holds (⟨w, []⟩ : Tasks _ _ _) := ⟨hw, fun i p hp => nomatch hp⟩
  exact (hstart.run (worldSafe_rewrite hb) hmoves).1

end

end PgShard.Migration
