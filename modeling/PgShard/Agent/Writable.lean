import PgShard.Agent.Server
import PgShard.Runs.Offence

/-!
# A writable primary and its lease

`Guarded`: a server that runs without `standby.signal` renews its lease. Two kinds of call break
it. Rewind and Reclone give the lease back before they stop PostgreSQL, and a stop that times out
leaves it writable. A rejoin that fails before `standby.signal` is written leaves a stopped former
primary without the lease, which a Restart brings up as it is. Every other call keeps it.
-/

namespace PgShard.Agent

open Hoare

def Server.Guarded (s : Server) : Prop := s.writable = true → s.lease = .held

/-- A start brings this server up as a standby or under the lease. -/
def Server.Ready (s : Server) : Prop := s.signal = true ∨ s.lease = .held

def Server.Down (s : Server) : Prop := s.running = false

/-- Stopped, and to come up as a standby. -/
def Server.Parked (s : Server) : Prop := s.Down ∧ s.signal = true

lemma Server.Down.guarded {s : Server} (h : s.Down) : s.Guarded := by
  intro hw
  simp [Server.writable, show s.running = false from h] at hw

lemma Server.Ready.guarded {s : Server} (h : s.Ready) : s.Guarded := by
  intro hw
  rcases h with hs | hl
  · simp [Server.writable, hs] at hw
  · exact hl

lemma Server.Parked.ready {s : Server} (h : s.Parked) : s.Ready := .inl h.2

/-- What holds before holds afterwards, whether the operation succeeds or not. -/
abbrev Keeps {α : Type} (P : Server → Prop) (m : Op α) : Prop := Ends P m (fun _ => P) P

section

variable {P E : Server → Prop}

lemma check_ends (ok : Bool) (e : Fault) : Ends P (check ok e) (fun _ s => P s ∧ ok = true) P := by
  cases ok with
  | true => exact Ends.pure fun s hs => ⟨hs, rfl⟩
  | false => exact Ends.throw fun s hs => hs

lemma check_keeps (ok : Bool) (e : Fault) : Keeps P (check ok e) := (check_ends ok e).gives fun _ _ h => h.1

lemma idle_ends (e : Fault) : Ends P (idle e) (fun _ s => P s ∧ s.Down) P := by
  apply Ends.read
  intro s₀ hs₀
  apply (check_ends _ e).weaken (fun _ h => h)
  · rintro _ s ⟨rfl, hdown⟩
    exact ⟨hs₀, by simpa [Server.Down] using hdown⟩
  · rintro s rfl
    exact hs₀

lemma idle_keeps (e : Fault) : Keeps P (idle e) := (idle_ends e).gives fun _ _ h => h.1

lemma clearRewound_keeps (hP : ∀ s, P s → P { s with rewound := none }) (ok : Bool) :
    Keeps P (clearRewound ok) := by
  apply Ends.bind (check_keeps ok _)
  intro _
  exact Ends.modify hP

/-- A stop fails only on a running server, which it leaves as it is. -/
lemma stop_ends (hP : ∀ s, P s → P { s with running := false }) (gone : Bool) :
    Ends P (stop gone) (fun _ s => P s ∧ s.Down) (fun s => P s ∧ s.running = true ∧ gone = false) := by
  apply Ends.read
  intro s₀ hs₀
  apply Ends.cond
  · intro hrun
    cases gone with
    | true => exact Ends.modify (by rintro s rfl; exact ⟨hP s hs₀, rfl⟩)
    | false => exact Ends.throw (by rintro s rfl; exact ⟨hs₀, hrun, rfl⟩)
  · intro hrun
    exact Ends.pure (by rintro s rfl; exact ⟨hs₀, by simpa [Server.Down] using hrun⟩)

/-- A start changes neither the signal nor the lease. -/
lemma start_guarded (o : Starting) :
    Ends (fun s => s.Ready ∨ s.Down ∧ o.alive = false) (start o) (fun _ => Server.Guarded)
      Server.Guarded := by
  have hready : Keeps Server.Ready (start o) := by
    apply (idle_keeps _).bind
    intro _
    apply Ends.update (M := Server.Ready)
    · intro s hs
      exact hs
    · cases o with
      | failed => exact Ends.throw fun _ h => h
      | unready => exact Ends.throw fun _ h => h
      | ready cleared => exact clearRewound_keeps (fun _ h => h) cleared
  intro s hs
  rcases hs with hs | ⟨hdown, halive⟩
  · exact hready.weaken (fun _ h => h) (fun _ _ h => h.guarded) (fun _ h => h.guarded) s hs
  · -- nothing runs afterwards
    cases o with
    | failed =>
      have : Ends Server.Down (start .failed) (fun _ => Server.Guarded) Server.Guarded := by
        apply Ends.bind ((idle_ends _).weaken (fun _ h => h) (fun _ _ h => h.2) (fun _ h => h.guarded))
        intro _
        exact Ends.update (M := Server.Down) (fun _ _ => rfl) (Ends.throw fun _ h => h.guarded)
      exact this s hdown
    | unready => cases halive
    | ready cleared => cases halive

lemma start_parked (o : Starting) : Ends Server.Parked (start o) (fun _ => Server.Guarded) Server.Guarded :=
  (start_guarded o).weaken (fun _ h => .inl h.ready) (fun _ _ h => h) (fun _ h => h)

lemma stopHold_keeps (hP : ∀ s l, P s → P { s with lease := l }) (released : Bool) :
    Ends P (stopHold released) (fun _ => P) E := by
  apply Ends.modify
  intro s hs
  exact hP s _ hs

lemma fenceCurrent_ends (epoch : Nat) : Ends P (fenceCurrent epoch) (fun _ s => P s ∧ epoch = s.epoch) P := by
  apply Ends.read
  intro s₀ hs₀
  apply (check_ends _ _).weaken (fun _ h => h)
  · rintro _ s ⟨rfl, heq⟩
    exact ⟨hs₀, by simpa using heq⟩
  · rintro s rfl
    exact hs₀

lemma fence_keeps (hP : ∀ s n, P s → P { s with epoch := n }) (epoch : Nat) (written : Bool) :
    Keeps P (fence epoch written) := by
  apply Ends.read
  intro s₀ hs₀
  have hchecked : Ends (· = s₀) (check (s₀.epoch < epoch) .staleEpoch) (fun _ => P) P :=
    (check_keeps _ _).weaken (P := P) (by rintro s rfl; exact hs₀) (fun _ _ h => h) (fun _ h => h)
  apply hchecked.bind
  intro _
  apply (check_keeps written _).bind
  intro _
  exact Ends.modify fun s hs => hP s _ hs

end

section

variable {P : Server → Prop} (hsignal : ∀ s signal, P s → P { s with signal })

/-- Whatever a tool leaves in the directory, `P` still holds. -/
def Spares (P : Server → Prop) (c : Contents) : Prop := ∀ s signal, P s → P { s with signal, rewound := c.rewound }

lemma runTool_ends (t : Tool) (e : Fault) (ht : Spares P t.leaves) :
    Ends P (runTool t e) (fun _ s => P s ∧ t.ok = true ∧ s.rewound = t.leaves.rewound) P :=
  Ends.update (M := fun s => P s ∧ s.rewound = t.leaves.rewound) (fun s hs => ⟨ht s _ hs, rfl⟩)
    ((check_ends t.ok e).weaken (fun _ h => h) (fun _ _ h => ⟨h.1.1, h.2, h.1.2⟩) fun _ h => h.1)

lemma dropStaleSlots_keeps (ok : Bool) : Keeps P (dropStaleSlots ok) := by
  apply (idle_keeps _).bind
  intro _
  exact check_keeps _ _

lemma baseBackup_ends (b : BaseBackup) (hb : Spares P b.leaves) :
    Ends P (baseBackup b) (fun _ s => P s ∧ s.signal = true) P := by
  apply (idle_keeps _).bind
  intro _
  apply (check_keeps b.slot _).bind
  intro _
  apply Ends.bind (M := fun _ s => P s ∧ (b.ok = true → s.signal = true))
  · apply Ends.modify
    intro s hs
    split
    · exact ⟨hb s _ hs, fun _ => rfl⟩
    · rename_i hok
      exact ⟨hb s _ hs, fun h => absurd h hok⟩
  intro _
  apply Ends.bind (M := fun _ s => P s ∧ s.signal = true)
  · exact (check_ends b.ok _).weaken (fun _ h => h) (fun _ _ h => ⟨h.1.1, h.1.2 h.2⟩) (fun _ h => h.1)
  intro _
  exact (check_keeps b.configured _).fails fun _ h => h.1

lemma markRewound_keeps (identity : String) (hP : ∀ s, P s → P { s with rewound := some identity }) (w : Write) :
    Keeps P (markRewound identity w) := by
  cases w with
  | done => exact Ends.modify hP
  | doubtful => exact Ends.update hP (Ends.throw fun _ h => h)
  | failed => exact Ends.throw fun _ h => h

include hsignal

lemma writeStandbySignal_ends (w : Write) : Ends P (writeStandbySignal w) (fun _ s => P s ∧ s.signal = true) P := by
  cases w with
  | done => exact Ends.modify fun s hs => ⟨hsignal s true hs, rfl⟩
  | doubtful => exact Ends.update (fun s hs => hsignal s true hs) (Ends.throw fun _ h => h)
  | failed => exact Ends.throw fun _ h => h

lemma repoClone_ends (r : RepoClone) (hr : Spares P r.restore.leaves) :
    Ends P (repoClone r) (fun _ s => P s ∧ s.signal = true) P := by
  apply (idle_keeps _).bind
  intro _
  apply (check_keeps r.found _).bind
  intro _
  apply (check_keeps r.slot _).bind
  intro _
  apply ((runTool_ends r.restore _ hr).gives fun _ _ h => h.1).bind
  intro _
  apply (dropStaleSlots_keeps r.slotsDropped).bind
  intro _
  apply (check_keeps r.recoveryRemoved _).bind
  intro _
  apply (writeStandbySignal_ends hsignal r.signalled).bind
  intro _
  exact (check_keeps r.configured _).fails fun _ h => h.1

lemma rebuild_ends (r : Rebuild) (hrepo : Spares P r.repo.restore.leaves) (hbase : Spares P r.base.leaves) :
    Ends P (rebuild r) (fun _ s => P s ∧ s.signal = true) P := by
  apply Ends.consult
  intro s₀ _
  apply Ends.cond
  · intro _
    exact (repoClone_ends hsignal r.repo hrepo).catching fun _ => baseBackup_ends r.base hbase
  · intro _
    exact baseBackup_ends r.base hbase

/-- The rest of a rejoin, once the directory is on the source's history. -/
lemma configure_ends (r : Rejoin) : Ends P
      (do
        dropStaleSlots r.slotsDropped
        writeStandbySignal r.signalled
        check r.configured .config)
      (fun _ s => P s ∧ s.signal = true) P := by
  apply (dropStaleSlots_keeps r.slotsDropped).bind
  intro _
  apply (writeStandbySignal_ends hsignal r.signalled).bind
  intro _
  exact (check_keeps r.configured _).fails fun _ h => h.1

end

lemma clone_ends (fromRepo : Bool) (r : Rebuild) :
    Ends Server.Down (clone fromRepo r) (fun _ => Server.Parked) Server.Down := by
  cases fromRepo with
  | true => exact repoClone_ends (fun _ _ h => h) r.repo fun _ _ h => h
  | false => exact baseBackup_ends r.base fun _ _ h => h

lemma adopt_down (r : Rejoin) : Keeps Server.Down (adopt r) := by
  apply Ends.consult
  intro s₀ _
  apply Ends.cond
  · intro _
    exact Ends.pure fun _ h => h
  · intro _
    apply Ends.catching (M := Server.Down)
    · apply (runTool_ends r.rewind _ fun _ _ h => h).bind
      intro _
      exact Ends.pure fun _ h => h.1
    · intro _
      apply (rebuild_ends (fun _ _ h => h) r.rebuild (fun _ _ h => h) fun _ _ h => h).bind
      intro _
      exact Ends.pure fun _ h => h.1

lemma afterAdopt_down (r : Rejoin) (a : Adopted) : Keeps Server.Down (afterAdopt r a) := by
  cases a with
  | resumed => exact check_keeps _ _
  | rewound =>
    unfold afterAdopt
    cases r.identity with
    | none => exact check_keeps _ _
    | some identity =>
      apply (markRewound_keeps identity (fun _ h => h) r.marked).bind
      intro _
      exact check_keeps _ _
  | recloned => exact Ends.pure fun _ h => h

/-- A rejoin leaves a stopped server, and one that comes up as a standby when it succeeds. -/
lemma follow_ends (r : Rejoin) : Ends Server.Down (follow r) (fun _ => Server.Parked) Server.Down := by
  apply (adopt_down r).bind
  intro a
  apply (afterAdopt_down r a).bind
  intro _
  exact configure_ends (fun _ _ h => h) r

/-- An event that makes the server writable without its lease, told from the server before it
and from how the event's own steps turn out. -/
def exposes (s : Server) : Event → Bool
  | .rewind r => r.epoch == s.epoch && s.writable && !r.stopped
  | .reclone r => r.epoch == s.epoch && s.writable && !r.stopped
  | .restart r =>
    r.epoch == s.epoch && !s.running && !s.signal && s.lease != .held && r.started.alive
  | .promote _ => false
  | .demote _ => false
  | .exits => false

section

variable {P : Server → Prop} (hsignal : ∀ s signal, P s → P { s with signal })
  (hrewound : ∀ s, P s → P { s with rewound := none })

include hsignal hrewound

lemma promoteInstance_keeps (a : Attempt) : Keeps P (promoteInstance a) := by
  apply (check_keeps a.readable _).bind
  intro _
  apply Ends.bind (M := fun _ => P)
  · apply Ends.consult
    intro s₀ _
    apply Ends.cond
    · intro _
      apply (check_keeps a.prepared _).bind
      intro _
      apply Ends.update fun s hs => hsignal s _ hs
      apply (check_keeps a.answered _).bind
      intro _
      apply Ends.consult
      intro s₁ _
      exact check_keeps _ _
    · intro _
      exact Ends.pure fun _ h => h
  · intro _
    apply (clearRewound_keeps hrewound a.cleared).bind
    intro _
    exact check_keeps _ _

lemma promoteWithRetry_keeps (a : Attempt) (again : List Attempt) : Keeps P (promoteWithRetry a again) := by
  induction again generalizing a with
  | nil => exact promoteInstance_keeps hsignal hrewound a
  | cons next rest ih => exact (promoteInstance_keeps hsignal hrewound a).catching fun _ => ih next

end

lemma acquireUnlessHeld_ends (ok : Bool) :
    Ends Server.Guarded (acquireUnlessHeld ok) (fun _ s => s.lease ≠ .free) Server.Guarded := by
  apply Ends.read
  intro s₀ hs₀
  apply Ends.cond
  · intro hheld
    exact Ends.pure (by rintro s rfl; simp [hheld])
  · intro hheld
    apply ((check_keeps ok _).weaken (by rintro s rfl; exact hs₀) (fun _ _ h => h) (fun _ h => h)).bind
    intro _
    exact Ends.modify fun s _ => by split <;> simp

lemma promote_guarded (p : Promotion) : Keeps Server.Guarded (promote p) := by
  apply (fence_keeps (fun _ _ h => h) p.epoch p.written).bind
  intro _
  apply Ends.consult
  intro s₀ _
  apply (check_keeps _ _).bind
  intro _
  apply (acquireUnlessHeld_ends p.acquired).bind
  intro _
  apply Ends.update (M := fun s => s.lease = .held) (fun s hs => by simp [show s.lease ≠ .free from hs])
  exact (promoteWithRetry_keeps (fun _ _ h => h) (fun _ h => h) p.first _).weaken (fun _ h => h)
    (fun _ _ h => fun _ => h) (fun _ h => fun _ => h)

lemma demote_guarded (d : Demotion) : Keeps Server.Guarded (demote d) := by
  apply Ends.bind (M := fun _ => Server.Guarded)
  · apply Ends.consult
    intro s₀ _
    apply Ends.cond
    · intro _
      exact Ends.pure fun _ h => h
    · intro _
      exact fence_keeps (fun _ _ h => h) d.epoch d.written
  intro _
  -- the lease is given back only once PostgreSQL is down
  apply ((stop_ends (fun s _ => Server.Down.guarded rfl) d.stopped).weaken (fun _ h => h)
    (fun _ _ h => h.2) (fun _ h => h.1)).bind
  intro _
  apply (stopHold_keeps (fun _ _ h => h) d.released).bind
  intro _
  apply ((follow_ends d.rejoin).fails fun _ h => h.guarded).bind
  intro _
  apply (start_parked d.started).bind
  intro _
  exact clearRewound_keeps (fun _ h => h) d.cleared

/-- The lease goes before the stop, so that a stop that fails has to fail on a standby. -/
lemma stopped_guarded {k : Op Unit} (epoch : Nat) (released stopped : Bool)
    (hk : Ends Server.Down k (fun _ => Server.Guarded) Server.Guarded) :
    Ends (fun s => s.Guarded ∧ (epoch == s.epoch && s.writable && !stopped) = false)
      (do
        fenceCurrent epoch
        stopHold released
        stop stopped
        k)
      (fun _ => Server.Guarded) Server.Guarded := by
  apply Ends.bind (M := fun _ s => s.writable = true → stopped = true)
  · apply (fenceCurrent_ends epoch).weaken (fun _ h => h) _ (fun _ h => h.1)
    rintro _ s ⟨⟨-, hexp⟩, hepoch⟩ hw
    simpa [hepoch, hw] using hexp
  intro _
  apply (stopHold_keeps (fun _ _ h => h) released).bind
  intro _
  apply Ends.bind (M := fun _ => Server.Down) _ fun _ => hk
  apply (stop_ends (by intro s _ hw; simp [Server.writable] at hw) stopped).weaken (fun _ h => h) (fun _ _ h => h.2)
  rintro s ⟨hstop, hrun, hfail⟩ hw
  rw [hstop hw] at hfail
  cases hfail

lemma rewind_guarded (r : Rewinding) : Ends (fun s => s.Guarded ∧ exposes s (.rewind r) = false) (rewind r)
      (fun _ => Server.Guarded) Server.Guarded := by
  apply stopped_guarded
  apply ((runTool_ends r.rewind _ fun _ _ h => h).weaken (fun _ h => h) (fun _ _ h => h.1) fun _ h => h.guarded).bind
  intro _
  apply ((check_keeps r.slot _).fails fun _ h => h.guarded).bind
  intro _
  apply ((writeStandbySignal_ends (fun _ _ h => h) r.signalled).fails fun _ h => h.guarded).bind
  intro _
  apply ((check_keeps r.configured _).fails fun _ h => h.1.guarded).bind
  intro _
  exact start_parked r.started

lemma reclone_guarded (r : Recloning) : Ends (fun s => s.Guarded ∧ exposes s (.reclone r) = false) (reclone r)
      (fun _ => Server.Guarded) Server.Guarded := by
  apply stopped_guarded
  apply ((clone_ends r.fromRepo r.rebuild).fails fun _ h => h.guarded).bind
  intro _
  exact start_parked r.started

lemma restart_guarded (r : Restarting) : Ends (fun s => s.Guarded ∧ exposes s (.restart r) = false) (restart r)
      (fun _ => Server.Guarded) Server.Guarded := by
  apply Ends.bind (M := fun _ s => s.Ready ∨ s.Down ∧ r.started.alive = false)
  · apply (fenceCurrent_ends r.epoch).weaken (fun _ h => h) _ (fun _ h => h.1)
    rintro _ s ⟨⟨hguarded, hexp⟩, hepoch⟩
    by_cases hready : s.Ready
    · exact .inl hready
    · obtain ⟨hsignal, hlease⟩ := not_or.mp hready
      have hsignal : s.signal = false := by simpa using hsignal
      have hdown : s.running = false := by
        cases hrun : s.running with
        | false => rfl
        | true => exact absurd (hguarded (by simp [Server.writable, hrun, hsignal])) hlease
      refine .inr ⟨hdown, ?_⟩
      simpa [exposes, hepoch, hdown, hsignal, hlease] using hexp
  intro _
  apply Ends.bind (M := fun _ s => s.Ready ∨ s.Down ∧ r.started.alive = false)
  · apply (stop_ends _ r.stopped).weaken (fun _ h => h) (fun _ _ h => h.1)
    · rintro s ⟨hready | ⟨hdown, -⟩, hrun, -⟩
      · exact hready.guarded
      · exact hdown.guarded
    · rintro s (hready | ⟨-, halive⟩)
      · exact .inl hready
      · exact .inr ⟨rfl, halive⟩
  intro _
  exact start_guarded r.started

variable {s : Server}

lemma step_guarded {e : Event} (hs : s.Guarded) (he : exposes s e = false) : (step s e).Guarded := by
  cases e with
  | promote p => exact (promote_guarded p).left hs
  | demote d => exact (demote_guarded d).left hs
  | rewind r => exact (rewind_guarded r).left ⟨hs, he⟩
  | reclone r => exact (reclone_guarded r).left ⟨hs, he⟩
  | restart r => exact (restart_guarded r).left ⟨hs, he⟩
  | exits => exact Server.Down.guarded rfl

/-! An exposing event does expose: the run is cut off where the defect lies. -/

lemma fenceCurrent_run {epoch : Nat} (h : epoch = s.epoch) : fenceCurrent epoch s = .ok () s := by
  subst h
  change check (s.epoch == s.epoch) .staleEpoch s = _
  rw [beq_self_eq_true]
  rfl

lemma stop_run_failed (h : s.running = true) : stop false s = .error .stop s := by
  change (if s.running = true then _ else _ : Op Unit) s = _
  rw [if_pos h]
  rfl

lemma stop_run_down (h : s.running = false) (gone : Bool) : stop gone s = .ok () s := by
  change (if s.running = true then _ else _ : Op Unit) s = _
  rw [if_neg (by simp [h])]
  rfl

lemma start_alive {o : Starting} (h : s.running = false) (halive : o.alive = true) :
    (left (start o) s).running = true ∧ (left (start o) s).signal = s.signal ∧
      (left (start o) s).lease = s.lease := by
  have hidle : idle .running s = .ok () s := by
    change check (!s.running) .running s = _
    rw [h]
    rfl
  cases o with
  | failed => cases halive
  | unready =>
    simp only [left, start, bind, EStateM.bind, hidle]
    exact ⟨rfl, rfl, rfl⟩
  | ready cleared =>
    cases cleared <;> (simp only [left, start, bind, EStateM.bind, hidle]; exact ⟨rfl, rfl, rfl⟩)

lemma Server.not_guarded (hrun : s.running = true) (hsignal : s.signal = false)
    (hlease : s.lease ≠ .held) : ¬ s.Guarded := by
  intro hguarded
  exact hlease (hguarded (by simp [Server.writable, hrun, hsignal]))

lemma exposed_by_failed_stop {epoch : Nat} {stopped : Bool} (k : Op Unit) (released : Bool)
    (he : (epoch == s.epoch && s.writable && !stopped) = true) : ¬ (left (do
        fenceCurrent epoch
        stopHold released
        stop stopped
        k) s).Guarded := by
  simp only [Server.writable, Bool.and_eq_true, Bool.not_eq_true', beq_iff_eq] at he
  obtain ⟨⟨hepoch, hrun, hsignal⟩, rfl⟩ := he
  have hheld : ∃ l, l ≠ Lease.held ∧ stopHold released s = .ok () { s with lease := l } := by
    refine ⟨_, ?_, rfl⟩
    split
    · nofun
    · split <;> nofun
  obtain ⟨l, hl, hstopHold⟩ := hheld
  have hstop : stop false { s with lease := l } = .error .stop { s with lease := l } := stop_run_failed hrun
  simp only [left, bind, EStateM.bind, fenceCurrent_run hepoch, hstopHold, hstop]
  exact Server.not_guarded hrun hsignal hl

lemma step_exposed {e : Event} (he : exposes s e = true) : ¬ (step s e).Guarded := by
  cases e with
  | promote p => cases he
  | demote d => cases he
  | exits => cases he
  | rewind r => exact exposed_by_failed_stop _ r.released he
  | reclone r => exact exposed_by_failed_stop _ r.released he
  | restart r =>
    simp only [exposes, Bool.and_eq_true, Bool.not_eq_true', beq_iff_eq, bne_iff_ne] at he
    obtain ⟨⟨⟨⟨hepoch, hdown⟩, hsignal⟩, hlease⟩, halive⟩ := he
    have hstep : step s (.restart r) = left (start r.started) s := by
      change left (restart r) s = _
      simp only [left, restart, bind, EStateM.bind, fenceCurrent_run hepoch, stop_run_down hdown]
    obtain ⟨hup, hkept, hlet⟩ := start_alive hdown halive
    rw [hstep]
    exact Server.not_guarded hup (hkept.trans hsignal) (hlet ▸ hlease)

lemma started_guarded (holder : String) (recloneFromRepo : Bool) (epoch : Nat) (standby : Bool) :
    (Server.started holder recloneFromRepo epoch standby).Guarded := by
  intro hw
  cases standby with
  | true => cases hw
  | false => rfl

/-- Along a run a writable PostgreSQL is always under the lease, exactly when no Rewind or
Reclone of the current epoch fails to stop a writable PostgreSQL, and no Restart of the current
epoch brings up a stopped one that has neither `standby.signal` nor the lease. -/
theorem writable_under_lease_iff (holder : String) (recloneFromRepo : Bool) (epoch : Nat)
    (standby : Bool) (events : List Event) :
    (∀ earlier, earlier <+: events → (run (Server.started holder recloneFromRepo epoch standby) earlier).Guarded) ↔
    ∀ earlier e, earlier ++ [e] <+: events →
      exposes (run (Server.started holder recloneFromRepo epoch standby) earlier) e = false := by
  apply Runs.good_throughout_iff step Server.Guarded Server.Guarded (fun _ => True) (fun s e => exposes s e = false)
  · intro s e hs _ he
    exact step_guarded hs he
  · intro s hs
    exact hs
  · intro s e _ _ he
    exact step_exposed (by simpa using he)
  · exact started_guarded holder recloneFromRepo epoch standby
  · intro e _
    trivial

/-- A rejoin whose source cannot be reached: no identity, no rewind, no slot. -/
def unreachable : Rejoin where
  identity := none
  readable := true
  rewind := ⟨false, ⟨false, none⟩⟩
  rebuild :=
    { repo := ⟨false, false, ⟨false, ⟨false, none⟩⟩, false, false, .failed, false⟩
      base := ⟨false, false, ⟨false, none⟩, false⟩ }
  marked := .failed
  slot := false
  slotsDropped := true
  signalled := .done
  configured := true

/-- A primary at epoch 1 is rewound at that epoch and its stop times out: it stays writable with
its lease given back. Or it is demoted at epoch 2 while the new primary cannot be reached, and
restarted: it comes up writable with its lease given back. -/
theorem writable_without_lease :
    (let s := run (Server.started "m0" false 1 false)
      [.rewind ⟨1, true, false, ⟨true, ⟨false, none⟩⟩, true, .done, true, .ready true⟩]
     s.writable = true ∧ s.lease = .free) ∧
    (let s := run (Server.started "m0" false 1 false) [.demote ⟨2, true, true, true, unreachable, .ready true, true⟩,
        .restart ⟨2, true, .ready true⟩]
     s.writable = true ∧ s.lease = .free) := by
  decide

end PgShard.Agent
