import PgShard.Migration.Retrying

/-!
# When a migration is recorded complete

A pass that is told by its own process that it no longer leads leaves its shard where it is. Whether the
catalog takes what the pass goes on to write depends on whether a successor has taken the term by then.
-/

namespace PgShard.Migration

open Interleave

variable {Q : Type}

variable {term : Nat} {m : DDLMigration Q}

/-- A process notices the loss of its leadership only once a successor has taken the term. -/
def noticedLate (x : Luck) : Call Q → World Q → Prop
  | .leader term, w => x.yes = false → w.accepts term = false
  | _, _ => True

instance (x : Luck) (c : Call Q) (w : World Q) : Decidable (noticedLate x c w) := by
  cases c
  case leader term => exact inferInstanceAs (Decidable (x.yes = false → w.accepts term = false))
  all_goals exact .isTrue trivial

def lateBounds : Bounds (World Q) (Call Q) Luck Event := ⟨fun x _ => noticedLate x, fun _ _ => True⟩

instance (x : Luck) (i : Nat) (c : Call Q) (w : World Q) : Decidable (lateBounds.call x i c w) :=
  inferInstanceAs (Decidable (noticedLate x c w))

instance (e : Event) (w : World Q) : Decidable (lateBounds.world e w) := .isTrue trivial

/-- The term has passed on for good. -/
def Deposed (term : Nat) (w : World Q) : Prop := term ≠ 0 ∧ term < w.term

lemma Deposed.refused {w : World Q} (h : Deposed term w) : w.accepts term = false := by
  simp only [World.accepts, Bool.or_eq_false_iff, decide_eq_false_iff_not]
  exact ⟨h.1, Nat.ne_of_lt h.2⟩

lemma deposed_of_refused {w : World Q} (h : w.accepts term = false) (hle : term ≤ w.term) : Deposed term w := by
  simp only [World.accepts, Bool.or_eq_false_iff, decide_eq_false_iff_not] at h
  exact ⟨h.1, by omega⟩

lemma Later.deposed {i : Nat} {s t : World Q} (h : Later i s t) (hd : Deposed term s) : Deposed term t :=
  ⟨hd.1, Nat.lt_of_lt_of_le hd.2 h.term⟩

def ShardState.settled : ShardState → Bool
  | .applied | .skipped => true
  | _ => false

/-- A row that is complete has no shard left; a shard of a migration in steps that has not come to an end
has a step before it. -/
structure DDLMigration.Sound (st : Strategy) (n : Nat) (m : DDLMigration Q) : Prop where
  strategy : m.strategy = st
  steps : m.steps.length = n
  whole : m.state = .complete → ∀ key ∈ m.keys, (m.perShard key).state.settled = true
  ahead : st = .multistep → ∀ key ∈ m.keys, (m.perShard key).state.final = false → (m.perShard key).step < n

def completeLogic (st : Strategy) (n : Nat) (b : Bounds (World Q) (Call Q) Luck Event) : Logic (host Q) b where
  inv w := w.row.Sound st n
  rely := Later
  rely_refl _ _ := {}
  rely_trans := Later.trans

variable {st : Strategy} {n : Nat}

section

variable {i : Nat} {s : World Q}

/-- A call that does not write the row. -/
lemma safe_read {c : Call Q} (hc : c.writes = false) {P : c.Reply → World Q → Prop}
    (h : ∀ x t r u, Later i s t → noticedLate x c t → exec x i c t = some (r, u) → P r u) :
    (completeLogic st n lateBounds).Safe i P (ask c) s := by
  intro t ht hinv x r u hx hexec
  have hkeeps := (exec_works hc hexec).1
  refine ⟨?_, fun j _ => .of_keeps hkeeps j, h x t r u ht hx hexec⟩
  change u.row.Sound st n
  rw [hkeeps.row]
  exact hinv

lemma write_sound {w w' : World Q} {x : SaveLuck} {starts : Bool}
    {r : Except SaveError Unit} (h : w.write x term starts (w.saved m) = (r, w'))
    (hm : m.Sound st n ∨ w.accepts term = false) (hinv : w.row.Sound st n) : w'.row.Sound st n ∧ (∀ j, Later j w w') ∧
      (r = .error .notLeaderTerm → w'.accepts term = false) ∧ (r = .ok () → w'.accepts term = true ∧ m.Sound st n) := by
  rcases World.write_cases h with ⟨rfl, hne, hrefused⟩ | ⟨haccepts, rfl, hne⟩
  · exact ⟨hinv, fun _ => {}, hrefused, fun hok => absurd hok hne⟩
  · rcases hm with hm | hno
    · exact ⟨⟨hinv.strategy, hinv.steps, hm.whole, hm.ahead⟩, fun _ => {},
        fun hno => absurd hno hne, fun _ => ⟨haccepts, hm⟩⟩
    · rw [hno] at haccepts
      cases haccepts

/-- A write of a row that is sound, or of one the catalog refuses. -/
lemma safe_save (hm : m.Sound st n ∨ Deposed term s) {P : Except SaveError Unit → World Q → Prop}
    (h : ∀ r u, Later i s u → (r = .error .notLeaderTerm → u.accepts term = false) →
      (r = .ok () → u.accepts term = true ∧ m.Sound st n) → P r u) :
    (completeLogic st n lateBounds).Safe i P (ask (.save term m)) s := by
  intro t ht hinv x r u _ hexec
  have hm' : m.Sound st n ∨ t.accepts term = false := hm.imp_right fun hd => (ht.deposed hd).refused
  obtain ⟨hu, hlater, hrefused, htaken⟩ := write_sound (Option.some.inj hexec) hm' hinv
  exact ⟨hu, fun j _ => hlater j, h r u (ht.trans (hlater i)) hrefused htaken⟩

lemma safe_mirrorAndSave (hm : m.Sound st n) :
    (completeLogic st n lateBounds).Safe i (fun _ _ => True) (ask (.mirrorAndSave term m)) s := by
  intro t ht hinv x r u _ hexec
  obtain ⟨hu, hlater, -, -⟩ := write_sound (Option.some.inj hexec) (.inl hm) hinv
  exact ⟨hu, fun j _ => hlater j, trivial⟩

end

/-- The entry of one shard of a running migration is written. -/
lemma DDLMigration.Only.sound {key : Key} {m₀ : DDLMigration Q} (h : m₀.Only key m) (hm : m₀.Sound st n)
    (hrun : m₀.state = .running) (s : ShardMigration) (hs : st = .multistep → s.state.final = false → s.step < n) :
    (m.setEntry key s).Sound st n := by
  refine ⟨h.strategy.trans hm.strategy, by rw [steps_setEntry, h.steps, hm.steps], ?_, ?_⟩
  · intro hc
    rw [state_setEntry, h.state, hrun] at hc
    cases hc
  · intro hst key' hkey hopen
    by_cases hk : key' = key
    · subst hk
      rw [entry_setEntry] at hopen ⊢
      exact hs hst hopen
    · rw [entry_setEntry_ne hk, h.entries key' hk] at hopen ⊢
      exact hm.ahead hst key' (h.keys ▸ hkey) hopen

/-- The shard has come to an end, or the pass has. -/
def Ended (i term : Nat) (s : ShardMigration) (w : World Q) : Prop :=
  s.state.final = true ∨ Deposed term w ∨ w.cancelled i = true

lemma answer_applied {e : Option Err} {outcome : ShardState} (h : answer ShardState.applied e = .ok outcome) :
    outcome.final = true := by
  cases e with
  | none =>
    cases h
    rfl
  | some e => cases h

section

variable {i : Nat} {p : Pass} {key : Key} {m : DDLMigration Q} {w : World Q} {σ : Type}
  {run : σ → DDLMigration Q → Prog Q (Except Err ShardState × σ)}

/-- What a run of the step has to come to. -/
def RunEnds (st : Strategy) (n i : Nat) (p : Pass) (run : σ → DDLMigration Q → Prog Q (Except Err ShardState × σ)) : Prop :=
  ∀ a m w, p.term ≤ w.term → (completeLogic st n lateBounds).Safe i
      (fun r u => p.term ≤ u.term ∧ ∀ outcome, r.1 = .ok outcome → outcome.final = true) (run a m) w

/-- What the loop has in hand: the migration it began with but for the shard's entry, on the step it began
with. -/
structure Driven (p : Pass) (key : Key) (m₀ : DDLMigration Q) (k : Nat) (m : DDLMigration Q) (s : ShardMigration)
    (w : World Q) : Prop where
  only : m₀.Only key m
  step : s.step = k
  term : p.term ≤ w.term

variable {m₀ : DDLMigration Q} {k : Nat} {s : ShardMigration}

lemma Driven.later {u : World Q} (h : Driven p key m₀ k m s w) (hu : Later i w u) : Driven p key m₀ k m s u :=
  ⟨h.only, h.step, Nat.le_trans h.term hu.term⟩

/-- The loop, under what `driveShards` needs of it. -/
def retrySpec (hrun : RunEnds st n i p run) (hm : m₀.Sound st n) (hrunning : m₀.state = .running)
    (hk : st = .multistep → k < n) : RetrySpec (completeLogic st n lateBounds) i p key run where
  before m s _ w := Driven p key m₀ k m s w
  recorded m s _ w := Driven p key m₀ k m s w
  failed m s _ _ w := Driven p key m₀ k m s w
  waiting m s _ w := Driven p key m₀ k m s w
  after m s w := Driven p key m₀ k m s w ∧ Ended i p.term s w
  before_later hu h := h.later hu
  failed_later hu h := h.later hu
  waiting_later hu h := h.later hu
  record {m s _ w} h := by
    have hsound := h.only.sound hm hrunning s.begun fun hst _ => h.step.symm ▸ hk hst
    refine safe_save (.inl hsound) fun r u hu hrefused _ => ?_
    have hnext : Driven p key m₀ k (m.setEntry key s.begun) s.begun u :=
      ⟨h.only.setEntry _, h.step, Nat.le_trans h.term hu.term⟩
    cases r with
    | ok _ => exact hnext
    | error e =>
      cases e with
      | notLeaderTerm =>
        exact ⟨⟨hnext.only.setEntry s, h.step, hnext.term⟩, .inr (.inl (deposed_of_refused (hrefused rfl) hnext.term))⟩
      | migrationHeld | other e => exact hnext
  runs {m s a w} h := (hrun a m w h.term).imp fun r u hu => by
    obtain ⟨result, st'⟩ := r
    cases result with
    | ok outcome => exact ⟨⟨h.only, h.step, hu.1⟩, .inl (hu.2 outcome rfl)⟩
    | error e => exact ⟨h.only, h.step, hu.1⟩
  stopped h hdone := ⟨h, .inr (.inr hdone)⟩
  ends h hstate := by
    refine ⟨{ h with }, .inl ?_⟩
    rcases hstate with ⟨rfl, -⟩ | rfl <;> rfl
  retry {m s _ e w} h := by
    have hsound := h.only.sound hm hrunning (s.hit m e .retrying) fun hst _ => h.step.symm ▸ hk hst
    refine safe_save (.inl hsound) fun r u hu hrefused _ => ?_
    have hnext : Driven p key m₀ k (m.setEntry key (s.hit m e .retrying)) (s.hit m e .retrying) u :=
      ⟨h.only.setEntry _, h.step, Nat.le_trans h.term hu.term⟩
    cases r with
    | ok _ => exact hnext
    | error e =>
      cases e with
      | notLeaderTerm => exact ⟨hnext, .inr (.inl (deposed_of_refused (hrefused rfl) hnext.term))⟩
      | migrationHeld | other e => exact hnext
  woken h hdone := ⟨h, .inr (.inr hdone)⟩
  lost h hlate hno := ⟨h, .inr (.inl (deposed_of_refused (hlate hno) h.term))⟩
  again h := h

/-- What is left of a shard once it was driven. -/
def Handled (i : Nat) (p : Pass) (key : Key) (m₀ : DDLMigration Q) (ms : DDLMigration Q × ShardMigration)
    (w : World Q) : Prop :=
  m₀.Only key ms.1 ∧ p.term ≤ w.term ∧ Ended i p.term ms.2 w

lemma safe_applySteps (hm : m₀.Sound .multistep n) (hrunning : m₀.state = .running) {sts : List Q}
    (hm' : m₀.Only key m) (hterm : p.term ≤ w.term) (hsteps : s.step + sts.length = n)
    (hs : sts = [] → s.state.final = true ∨ Deposed p.term w) :
    (completeLogic .multistep n lateBounds).Safe i (Handled i p key m₀) (applySteps p key sts m s) w := by
  induction sts generalizing m s w with
  | nil =>
    refine ⟨hm', hterm, ?_⟩
    rcases hs rfl with hfinal | hdeposed
    · exact .inl hfinal
    · exact .inr (.inl hdeposed)
  | cons st sts ih =>
    have hrun : RunEnds .multistep n i p fun (_ : Unit) m => do
        return (← ask (.runStep m key st), ()) := by
      intro _ m w hterm
      refine Logic.Safe.bind (safe_read rfl fun x t r u ht _ hexec => ?_)
      have hkeeps := (exec_works rfl hexec).1
      refine ⟨Nat.le_trans (Nat.le_trans hterm ht.term) (Nat.le_of_eq hkeeps.term.symm), ?_⟩
      cases hexec
      exact fun outcome hok => answer_applied hok
    have hk : Strategy.multistep = .multistep → s.step < n := fun _ => by
      simp only [List.length_cons] at hsteps
      omega
    refine (((retrySpec hrun hm hrunning hk).safe_retrying ⟨hm', rfl, hterm⟩).imp fun ms u hu => ?_).bind
    obtain ⟨m', s'⟩ := ms
    obtain ⟨hdriven, hended⟩ := hu
    dsimp only
    split
    · exact ⟨hdriven.only, hdriven.term, hended⟩
    · rename_i happlied
      have hstate : s'.state = .applied := by simpa using happlied
      have hfinal : ShardState.final s'.state = true := by rw [hstate]; rfl
      have hsound := hdriven.only.sound hm hrunning { s' with step := s'.step + 1 } fun _ hopen => by
        rw [hfinal] at hopen
        cases hopen
      refine Logic.Safe.bind (safe_save (.inl hsound) fun r v hv _ _ => ?_)
      have honly := hdriven.only.setEntry { s' with step := s'.step + 1 }
      have hnext : (completeLogic .multistep n lateBounds).Safe i (Handled i p key m₀)
          (applySteps p key sts (m'.setEntry key { s' with step := s'.step + 1 }) { s' with step := s'.step + 1 }) v := by
        refine ih honly (Nat.le_trans hdriven.term hv.term) ?_ fun _ => .inl hfinal
        have hstep : s'.step = s.step := hdriven.step
        simp only [List.length_cons] at hsteps ⊢
        omega
      cases r with
      | ok _ => exact hnext
      | error e =>
        cases e with
        | notLeaderTerm => exact ⟨honly, Nat.le_trans hdriven.term hv.term, .inl hfinal⟩
        | migrationHeld | other e => exact hnext

lemma safe_applyOn (hm : m₀.Sound st n) (hrunning : m₀.state = .running) (hkey : key ∈ m₀.keys)
    (hopen : (m₀.perShard key).state.final = false) (hterm : p.term ≤ w.term) :
    (completeLogic st n lateBounds).Safe i (Handled i p key m₀) (applyOn p key m₀ (m₀.perShard key)) w := by
  unfold applyOn
  split
  · have hrun : RunEnds st n i p fun (resumed : Bool) (m : DDLMigration Q) => do
        let out ← ask (.step m key resumed)
        return (out, resumed || mayHaveRun m (failure out)) := by
      intro a m w hterm
      refine Logic.Safe.bind (safe_read rfl fun x t r u ht _ hexec => ?_)
      have hkeeps := (exec_works rfl hexec).1
      refine ⟨Nat.le_trans (Nat.le_trans hterm ht.term) (Nat.le_of_eq hkeeps.term.symm), ?_⟩
      cases hexec
      exact fun outcome hok => answer_applied hok
    have hk : st = .multistep → (m₀.perShard key).step < n := fun hst => hm.ahead hst key hkey hopen
    refine ((retrySpec hrun hm hrunning hk).safe_retrying ⟨.refl key m₀, rfl, hterm⟩).imp fun ms u hu => ?_
    exact ⟨hu.1.only, hu.1.term, hu.2⟩
  · rename_i hmulti
    have hst : st = .multistep := hm.strategy.symm.trans (by simpa using hmulti)
    subst hst
    have hlt := hm.ahead rfl key hkey hopen
    refine safe_applySteps hm hrunning (.refl key m₀) hterm ?_ ?_
    · rw [List.length_drop, hm.steps]
      omega
    · intro hnil
      have hlen : (m₀.steps.drop (m₀.perShard key).step).length = 0 := by rw [hnil]; rfl
      rw [List.length_drop, hm.steps] at hlen
      omega

end

lemma tally_sound (hm : m.Sound st n) (hthrough : ∀ key ∈ m.keys, (m.perShard key).state.final = true) :
    (tally m).Sound st n := by
  have hsame : ∀ key ∈ m.keys, (m.perShard key).state.final = false → (m.perShard key).step < n := by
    intro key hkey hopen
    rw [hthrough key hkey] at hopen
    cases hopen
  unfold tally
  split
  · exact ⟨hm.strategy, hm.steps, nofun, fun _ => hsame⟩
  · rename_i hnone
    have hsettled : ∀ key ∈ m.keys, (m.perShard key).state.settled = true := by
      intro key hkey
      have hfinal := hthrough key hkey
      have hfailed := List.find?_eq_none.mp hnone key hkey
      cases hstate : (m.perShard key).state <;> simp_all [ShardState.final, ShardState.settled]
    split
    · exact ⟨hm.strategy, hm.steps, fun _ => hsettled, fun _ => hsame⟩
    · split
      · exact ⟨hm.strategy, hm.steps, fun _ => hsettled, fun _ => hsame⟩
      · exact ⟨hm.strategy, hm.steps, nofun, fun _ key _ hopen => by cases hopen⟩

/-- A pass holds a sound row, under a term that was the catalog's. -/
def completeShards (hst : st ≠ .rewrite) (i : Nat) (p : Pass) :
    ShardsSpec (Q := Q) (completeLogic st n lateBounds) i p where
  good m w := m.Sound st n ∧ p.term ≤ w.term
  good_later h := fun ⟨hm, hs⟩ => ⟨hm, Nat.le_trans hs h.term⟩
  saves := fun ⟨hm, hw⟩ => safe_save (.inl hm) fun _ _ hu _ _ => ⟨hm, Nat.le_trans hw hu.term⟩
  ended s := s.state.final = true
  ended_final := id
  lost w := Deposed p.term w ∨ w.cancelled i = true
  lost_later h := Or.imp h.deposed h.cancelled
  refused h hgoes := by
    have hdeposed := h.resolve_right (by simp [hgoes])
    refine safe_save (.inr hdeposed) fun r u hu _ htaken hok => ?_
    have haccepts := (htaken hok).1
    rw [(hu.deposed hdeposed).refused] at haccepts
    cases haccepts
  direct h hrewrite := hst (h.1.strategy.symm.trans hrewrite)
  gaveUp key := fun ⟨hm, hw⟩ hrunning => ⟨(DDLMigration.Only.refl key _).sound hm hrunning _ nofun, hw⟩
  applies := fun ⟨hm, hw⟩ hrunning hkey hopen =>
    (safe_applyOn hm hrunning hkey hopen hw).imp fun ms u ⟨honly, hterm, hended⟩ =>
      ⟨honly, hended.imp_left fun hfinal =>
        ⟨⟨honly.sound hm hrunning ms.2 fun _ hno => absurd hfinal (by simp [hno]), hterm⟩, hfinal⟩⟩
  tallied := fun ⟨hm, hw⟩ hthrough => ⟨tally_sound hm hthrough, hw⟩
  mirrors h := safe_mirrorAndSave h.1

def completeSpec (hst : st ≠ .rewrite) (hn : st = .multistep → 0 < n) (i : Nat) (p : Pass) :
    PassSpec (Q := Q) (completeLogic st n lateBounds) i p where
  toRowSpec := (completeShards hst i p).toRowSpec
  here w := p.term ≤ w.term
  idle _ := True
  here_later h hs := Nat.le_trans hs h.term
  idle_later _ := id
  loaded hw hinv _ hfound := ⟨(pendingRow_some hfound).1 ▸ hinv, hw⟩
  unloaded _ _ _ := trivial
  failed _ := fun ⟨hm, hw⟩ => ⟨⟨hm.strategy, hm.steps, nofun, hm.ahead⟩, hw⟩
  rehome _ := fun ⟨hm, hw⟩ => ⟨{ hm with }, hw⟩
  replan _ _ := fun ⟨hm, hw⟩ => ⟨⟨hm.strategy, hm.steps, nofun, hm.ahead⟩, hw⟩
  driven m w := m.Sound st n ∧ p.term ≤ w.term
  begins {m _} serving keys _ := fun ⟨hm, hw⟩ => by
    have hfresh : (m.fresh serving keys).Sound st n := ⟨hm.strategy, hm.steps, nofun, fun hst _ _ _ => hn hst⟩
    exact safe_save (.inl hfresh) fun _ _ hu _ _ _ => ⟨hfresh, Nat.le_trans hw hu.term⟩
  resumes hm _ := hm
  sweeps _ _ := safe_read rfl fun _ _ _ _ _ _ _ => trivial
  returns _ := safe_read rfl fun _ _ _ _ _ _ _ => trivial
  drives hm hrunning := (completeShards hst i p).safe_driveBegun hm hrunning

lemma worldSafe_complete (hst : st ≠ .rewrite) (hn : st = .multistep → 0 < n) :
    (completeLogic (Q := Q) st n lateBounds).WorldSafe := by
  intro e k w hinv _
  refine ⟨?_, fun j _ => Later.happen e k w j, fun task htask => ?_⟩
  · change (happen e k w).2.row.Sound st n
    rw [(happen_spares e k w).row]
    exact hinv
  · rcases happen_begins htask with ⟨catalog, -, rfl, -, hstore⟩ | ⟨catalog, -, rfl, hstore⟩
    · refine (completeSpec hst hn k _).safe_runOnce ?_
      exact Nat.le_of_eq (congrArg World.term hstore).symm
    · exact (completeSpec hst hn k _).safe_runOnce (Nat.zero_le _)

/-- Whatever is lost or refused, and wherever a controller stops, a migration that is recorded complete has
no shard left, provided a controller notices the loss of its leadership only once its writes are refused. -/
theorem complete_settled (w : World Q) (hqueued : w.row.state = .queued) (hnew : w.row.keys = [])
    (hstrategy : w.row.strategy ≠ .rewrite) (hsteps : w.row.strategy = .multistep → w.row.steps ≠ [])
    (moves : List (Move Luck Event)) (hlate : lateBounds.Along (host Q) ⟨w, []⟩ moves) :
    let row := (Tasks.run (host Q) ⟨w, []⟩ moves).store.row
    row.state = .complete → ∀ key ∈ row.keys, (row.perShard key).state.settled = true := by
  have hn : w.row.strategy = .multistep → 0 < w.row.steps.length := fun h => List.length_pos_iff.mpr (hsteps h)
  have hsound : w.row.Sound w.row.strategy w.row.steps.length := by
    refine ⟨rfl, rfl, fun h => ?_, fun _ key hkey => ?_⟩
    · rw [hqueued] at h
      cases h
    · rw [hnew] at hkey
      cases hkey
  have hstart : (completeLogic w.row.strategy w.row.steps.length lateBounds).Holds (⟨w, []⟩ : Tasks _ _ _) :=
    ⟨hsound, fun i p hp => nomatch hp⟩
  exact (hstart.run (worldSafe_complete hstrategy hn) hlate).1.whole

def lockTimeout : Err := { text := "canceling statement due to lock timeout", code := ⟨"55", "P03"⟩ }

/-- A pass drives two shards; the second fails once, for the lock. -/
def lockedOnce : List (Move Luck Event) :=
  .world (.begin true false) :: undisturbed 0 3 ++ .act 0 { ids := [0, 1] } :: undisturbed 0 8 ++
    .act 0 { attemptsLeft := 1 } :: undisturbed 0 1 ++ .act 0 { err := some lockTimeout } :: undisturbed 0 3

theorem complete_settled_retried :
    let w : World Unit := { row := { kind := "ALTER TABLE", strategy := .direct } }
    let moves := lockedOnce ++ undisturbed 0 6
    let row := (Tasks.run (host Unit) ⟨w, []⟩ moves).store.row
    row.state = .complete ∧ row.keys = [.shard 0, .shard 1] ∧
      ∀ key ∈ row.keys, (row.perShard key).state.settled = true :=
  ⟨by decide +kernel, by decide +kernel, complete_settled _ rfl rfl (by decide) (by decide) (lockedOnce ++ undisturbed 0 6)
    (by decide +kernel) (by decide +kernel)⟩

/-- The process notices the loss of its leadership after the wait, before a successor has taken the term:
the migration is recorded complete with a shard on which the statement never ran. -/
theorem complete_left_retrying :
    let w : World Unit := { row := { kind := "ALTER TABLE", strategy := .direct } }
    let moves := lockedOnce ++ .act 0 { yes := false } :: undisturbed 0 3
    let u := (Tasks.run (host Unit) ⟨w, []⟩ moves).store
    u.row.state = .complete ∧ Key.shard 1 ∈ u.row.keys ∧ (u.row.perShard (.shard 1)).state = .retrying ∧
      (u.shards (.shard 1)).ran = false := by
  decide +kernel

end PgShard.Migration
