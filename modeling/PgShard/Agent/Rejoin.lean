import PgShard.Agent.Writable

/-!
# The marker of a completed rewind

`follow` skips `pg_rewind` when a marker in the data directory names the server its source reports. Beside
the server stands what has become of the directory. A demotion is a stop, a `follow`, a start and the
removal of the marker, a bootstrap a `follow` and a start, a restart a stop and a start, each cut off
where a step fails or the agent dies: a run is any sequence of these.
-/

namespace PgShard.Agent

open Hoare

structure Directory where
  server : Server
  /-- The server the last successful `pg_rewind` ran against. -/
  last : Option String
  /-- PostgreSQL has been started since. -/
  started : Bool

inductive Act where
  /-- `dialled` is the server behind the source's address by the time `pg_rewind` connects. -/
  | follow (r : Rejoin) (dialled : String)
  /-- PostgreSQL may have been `launched` and be gone before it answered. -/
  | start (o : Starting) (launched : Bool)
  | stop (gone : Bool)
  | clear (ok : Bool)
  | promote (p : Promotion)
  | exits

def Act.op : Act → Op Unit
  | .follow r _ => Agent.follow r
  | .start o _ => Agent.start o
  | .stop gone => Agent.stop gone
  | .clear ok => clearRewound ok
  | .promote p => Agent.promote p
  | .exits => modify fun s => { s with running := false }

/-- The server that a `pg_rewind` of this act completes against. -/
def Act.rewinds (s : Server) : Act → Option String
  | .follow r dialled => if rewoundAgainst r s || !r.rewind.ok then none else some dialled
  | _ => none

def Act.launches (s : Server) : Act → Bool
  | .start o launched => !s.running && (o.alive || launched)
  | _ => false

namespace Directory

def step (d : Directory) (a : Act) : Directory where
  server := left a.op d.server
  last := (a.rewinds d.server).or d.last
  started := (a.rewinds d.server).isNone && (d.started || a.launches d.server)

def run (d : Directory) (acts : List Act) : Directory := acts.foldl step d

end Directory

/-- What the tools of a rejoin leave. -/
def Rejoin.leaves (r : Rejoin) : List Contents :=
  [r.rewind.leaves, r.rebuild.repo.restore.leaves, r.rebuild.base.leaves]

/-- `pg_rewind` reaches the server that was identified, a tool brings no marker into the directory and a
successful `pg_rewind` leaves none, and a start on a marked directory is seen to succeed and removes the marker. -/
def Act.Orderly (s : Server) : Act → Prop
  | .follow r dialled =>
    (∀ identity, r.identity = some identity → dialled = identity) ∧
      (r.rewind.ok = true → r.rewind.leaves.rewound = none) ∧
      ∀ c ∈ r.leaves, c.rewound = none ∨ c.rewound = s.rewound
  | .start o launched => o.alive || launched → s.rewound = none ∨ o = .ready true
  | _ => True

/-- No marker but this one. -/
def Within (x : Option String) (s : Server) : Prop := s.rewound = none ∨ s.rewound = x

variable {s : Server} {x : Option String}

/-- A directory that was just rewound is marked with the source's identity, if that is known. -/
lemma afterAdopt_rewound (r : Rejoin) :
    Ends (fun s => s.rewound = none) (afterAdopt r .rewound) (fun _ => Within r.identity) (Within r.identity) := by
  have hnone : ∀ s : Server, s.rewound = none → Within r.identity s := fun _ => .inl
  unfold afterAdopt
  cases hid : r.identity with
  | none => exact (check_keeps r.slot _).weaken (hid ▸ hnone) (fun _ _ h => h) fun _ h => h
  | some identity =>
    have hmark := markRewound_keeps (P := Within (some identity)) identity (fun _ _ => .inr rfl) r.marked
    apply (hmark.weaken (hid ▸ hnone) (fun _ _ h => h) fun _ h => h).bind
    intro _
    exact check_keeps _ _

lemma adopt_rewound {r : Rejoin} (hnew : rewoundAgainst r s = false) (hok : r.rewind.ok = true) :
    adopt r s = .ok .rewound { s with signal := r.rewind.leaves.signal, rewound := r.rewind.leaves.rewound } := by
  change (if rewoundAgainst r s = true then _ else tryCatch (do runTool r.rewind .rewind; pure .rewound) _ : Op Adopted) s = _
  rw [if_neg (by simp [hnew]), runTool, hok]
  rfl

/-- Without a successful `pg_rewind` the marker stays or goes. -/
lemma adopt_kept {r : Rejoin} (hkept : rewoundAgainst r s = true ∨ r.rewind.ok = false)
    (hleaves : ∀ c ∈ r.leaves, c.rewound = none ∨ c.rewound = s.rewound) :
    Ends (· = s) (adopt r) (fun a s' => a ≠ .rewound ∧ Within s.rewound s') (Within s.rewound) := by
  apply Ends.read
  rintro s rfl
  apply Ends.cond
  · intro _
    exact Ends.pure (by rintro _ rfl; exact ⟨nofun, .inr rfl⟩)
  intro hnew
  have hfails := hkept.resolve_left hnew
  have hspares : ∀ c ∈ r.leaves, Spares (Within s.rewound) c := fun c hc _ _ _ => hleaves c hc
  apply Ends.catching (M := Within s.rewound)
  · apply ((runTool_ends r.rewind _ (hspares _ (by simp [Rejoin.leaves]))).weaken (by rintro _ rfl; exact .inr rfl)
      (fun _ _ h => h) fun _ h => h).bind
    intro _
    exact Ends.pure fun _ h => absurd h.2.1 (by simp [hfails])
  · intro _
    apply (rebuild_ends (fun _ _ h => h) r.rebuild (hspares _ (by simp [Rejoin.leaves])) (hspares _ (by simp [Rejoin.leaves]))).bind
    intro _
    exact Ends.pure fun _ h => ⟨nofun, h.1⟩

/-- The only marker that a rejoin can leave. -/
lemma follow_within {r : Rejoin} {dialled : String} (hr : (Act.follow r dialled).Orderly s) :
    Within (if rewoundAgainst r s || !r.rewind.ok then s.rewound else r.identity) (left (follow r) s) := by
  obtain ⟨-, hnone, hleaves⟩ := hr
  have hfollow : ∀ {x} {Q : Adopted → Server → Prop}, Ends (· = s) (adopt r) Q (Within x) →
      (∀ a, Ends (Q a) (afterAdopt r a) (fun _ => Within x) (Within x)) → Within x (left (follow r) s) := by
    intro x Q hadopt hafter
    have hends := hadopt.bind fun a => (hafter a).bind fun _ => configure_ends (fun _ _ h => h) r
    exact (hends.gives fun _ _ h => h.1).left rfl
  split
  · rename_i hkept
    refine hfollow (adopt_kept (by simpa using hkept) hleaves) fun a => ?_
    cases a with
    | resumed => exact (check_keeps r.slot _).weaken (fun _ h => h.2) (fun _ _ h => h) fun _ h => h
    | recloned => exact Ends.pure fun _ h => h.2
    | rewound => exact fun _ h => absurd rfl h.1
  · rename_i hnew
    simp only [Bool.or_eq_true, Bool.not_eq_true', not_or, Bool.not_eq_true, Bool.not_eq_false] at hnew
    refine hfollow (Q := fun a s' => a = .rewound ∧ s'.rewound = none) ?_ ?_
    · rintro s rfl
      rw [adopt_rewound hnew.1 hnew.2]
      exact ⟨rfl, hnone hnew.2⟩
    · rintro a s' ⟨rfl, hs'⟩
      exact afterAdopt_rewound r s' hs'

lemma start_rewound (o : Starting) (s : Server) :
    (left (start o) s).rewound = if s.running = false ∧ o = .ready true then none else s.rewound := by
  obtain ⟨_, _, _, _, running, _, _⟩ := s
  cases running with
  | true => rfl
  | false =>
    cases o with
    | failed => rfl
    | unready => rfl
    | ready cleared => cases cleared <;> rfl

lemma promote_within (p : Promotion) : Keeps (Within x) (promote p) := by
  apply (fence_keeps (fun _ _ h => h) p.epoch p.written).bind
  intro _
  apply Ends.consult
  intro s₀ _
  apply (check_keeps _ _).bind
  intro _
  apply Ends.bind (M := fun _ => Within x)
  · apply Ends.consult
    intro s₁ _
    apply Ends.cond
    · intro _
      exact Ends.pure fun _ h => h
    · intro _
      apply (check_keeps p.acquired _).bind
      intro _
      exact Ends.modify fun _ h => h
  intro _
  exact Ends.update (fun _ h => h) (promoteWithRetry_keeps (fun _ _ h => h) (fun _ _ => .inl rfl) p.first _)

namespace Directory

variable {d : Directory}

/-- The marker tells the truth. -/
def Marked (d : Directory) : Prop :=
  ∀ identity, d.server.rewound = some identity → d.last = some identity ∧ d.started = false

/-- Nothing is rewound or launched, and no marker is written. -/
lemma Marked.kept (h : d.Marked) {a : Act} (hrewinds : a.rewinds d.server = none) (hlaunches : a.launches d.server = false)
    (hwithin : Within d.server.rewound (left a.op d.server)) : (d.step a).Marked := by
  intro identity hidentity
  rcases hwithin with hnone | hsame
  · exact nomatch hnone.symm.trans hidentity
  · simpa [step, hrewinds, hlaunches] using h identity (hsame.symm.trans hidentity)

lemma Marked.step (h : d.Marked) {a : Act} (ha : a.Orderly d.server) : (d.step a).Marked := by
  cases a with
  | follow r dialled =>
    have hwithin := follow_within ha
    split at hwithin
    · rename_i hkept
      exact h.kept (if_pos hkept) rfl hwithin
    · rename_i hnew
      intro identity hidentity
      rcases hwithin with hnone | hmarked
      · exact nomatch hnone.symm.trans hidentity
      · have hdialled := ha.1 identity (hmarked.symm.trans hidentity)
        simp [Directory.step, Act.rewinds, hnew, hdialled]
  | start o launched =>
    have hleft := start_rewound o d.server
    by_cases hlaunches : (Act.start o launched).launches d.server = true
    · intro identity hidentity
      simp only [Act.launches, Bool.and_eq_true, Bool.not_eq_true'] at hlaunches
      have hnone : (left (start o) d.server).rewound = none := by
        rw [hleft]
        split
        · rfl
        · rename_i hnot
          exact (ha hlaunches.2).resolve_right fun hready => hnot ⟨hlaunches.1, hready⟩
      exact nomatch hnone.symm.trans hidentity
    · refine h.kept rfl (by simpa using hlaunches) ?_
      change Within _ (left (start o) d.server)
      unfold Within
      rw [hleft]
      split
      · exact .inl rfl
      · exact .inr rfl
  | stop gone =>
    have hstop := (stop_ends (P := Within d.server.rewound) (fun _ h => h) gone).weaken (fun _ h => h)
      (fun _ _ h => h.1) fun _ h => h.1
    exact h.kept rfl rfl (hstop.left (.inr rfl))
  | clear ok => exact h.kept rfl rfl ((clearRewound_keeps (fun _ _ => .inl rfl) ok).left (.inr rfl))
  | promote p => exact h.kept rfl rfl ((promote_within p).left (.inr rfl))
  | exits => exact h.kept rfl rfl (.inr rfl)

/-- Each act of the run is orderly. -/
def Orderly (d : Directory) : List Act → Prop
  | [] => True
  | a :: acts => a.Orderly d.server ∧ (d.step a).Orderly acts

lemma Marked.run {acts : List Act} (h : d.Marked) (hacts : d.Orderly acts) : (d.run acts).Marked := by
  induction acts generalizing d with
  | nil => exact h
  | cons a acts ih => exact ih (h.step hacts.1) hacts.2

/-- Along an orderly run, from a directory without a marker, a rejoin skips `pg_rewind` only when the last
successful one ran against the server that its source reports and PostgreSQL has not been started since. -/
theorem rewind_skipped_safely (hstart : d.server.rewound = none) (acts : List Act) (hacts : d.Orderly acts) (r : Rejoin)
    (hskips : rewoundAgainst r (d.run acts).server = true) :
    (d.run acts).last = r.identity ∧ (d.run acts).started = false := by
  have hmarked : d.Marked := fun _ h => nomatch hstart.symm.trans h
  simp only [rewoundAgainst, Bool.and_eq_true, beq_iff_eq] at hskips
  obtain ⟨identity, hidentity⟩ := Option.isSome_iff_exists.mp hskips.1.1
  rw [hidentity]
  exact hmarked.run hacts identity (hskips.2.trans hidentity)

/-- A primary that is to rejoin. -/
def former : Directory := ⟨Server.started "m0" false 1 false, none, false⟩

/-- A rejoin that comes through `pg_rewind` and fails to make its slot. -/
def interrupted : Rejoin :=
  { unreachable with identity := some "7300/00000002", rewind := ⟨true, ⟨false, none⟩⟩, marked := .done }

theorem rewind_skipped_after_retry :
    let d := former.run [.stop true, .follow interrupted "7300/00000002"]
    d.last = interrupted.identity ∧ d.started = false := by
  have hacts : former.Orderly [.stop true, .follow interrupted "7300/00000002"] :=
    ⟨trivial, ⟨fun _ h => Option.some.inj h, fun _ => rfl, by decide⟩, trivial⟩
  exact rewind_skipped_safely rfl _ hacts interrupted (by decide)

/-- Between the query of the source's identity and `pg_rewind` the address goes over to another server, and
comes back: the marker names the first. Or a start times out once PostgreSQL is up: the marker stays. -/
theorem rewind_skipped_wrongly :
    (let d := former.run [.stop true, .follow interrupted "7300/00000003"]
     rewoundAgainst interrupted d.server = true ∧ d.last = some "7300/00000003") ∧
    (let d := former.run [.stop true, .follow { interrupted with slot := true } "7300/00000002",
      .start .unready true, .stop true]
     rewoundAgainst interrupted d.server = true ∧ d.started = true) := by
  decide

end Directory

end PgShard.Agent
