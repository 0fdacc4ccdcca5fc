import PgShard.Relay.Line

/-!
# What a Flush waits for

`awaiting` is to be the number of terminating replies still to come from PostgreSQL when a Flush is
answered. It goes wrong where a backend with unanswered messages is discarded or lost, since the
counter stays; where messages follow an error before the Sync, since PostgreSQL skips what is
counted; and where a COPY begins. ReadyForQuery puts it right. A Flush that comes after none of these
since the last ReadyForQuery waits for exactly what is coming, and is completed.
-/

namespace PgShard.Relay

open Wire

def Event.copyless : Event → Bool
  | .request req l => (req.message.map fun m => Relay.copyless (m, l.effect)).getD true
  | _ => true

def Frontend.flushes : Frontend → Bool
  | .flush => true
  | .sync => true
  | .query _ => true
  | _ => false

namespace State

def line (s : State) : Option Line := s.backend.map Backend.line

/-- The replies to come from the current backend. -/
def coming (sql : Dialect) (s : State) : List Reply := (s.line.map (Line.coming sql)).getD []

/-- The terminating replies PostgreSQL owes on the current backend. -/
def owed (sql : Dialect) (s : State) : Nat := (s.coming sql).countP terminatesMessage

/-- A backend with buffered messages is discarded. -/
def drops (s : State) : Bool := (s.backend.map fun b => !b.unflushed.isEmpty).getD false

/-- PostgreSQL skips what is written to the current backend, and the error has been read. -/
def mute (sql : Dialect) (s : State) : Bool := (s.line.map (Line.mute sql)).getD false

/-- A message is refused while others are buffered, its flush fails, or it is relayed after the
error of its batch; or the connection is lost under the pump. -/
def upsets (sql : Dialect) (s : State) : Event → Bool
  | .request req l =>
    s.phase == .ready &&
      if (s.refusal req l).isSome then s.drops
      else (req.message.map Frontend.flushes).getD false && !l.flushes ||
        (req.message.map Frontend.owes).getD false && s.mute sql
  | .lost => s.phase.pumps
  | _ => false

/-- The ReadyForQuery of PostgreSQL is relayed. -/
def settles (sql : Dialect) (s : State) : Event → Bool
  | .reads _ =>
    s.phase == .pumping &&
      match s.backend with
      | none => false
      | some b => (b.receive sql).any (·.1.isReady)
  | _ => false

end State

/-- A run, and whether the count has been upset since the last ReadyForQuery. -/
def watch (sql : Dialect) (toUpper : String → String) (x : State × Bool) (e : Event) : State × Bool :=
  (step sql toUpper x.1 e, !x.1.settles sql e && (x.2 || x.1.upsets sql e))

def watched (sql : Dialect) (toUpper : String → String) (reserved : Bool) (events : List Event) : State × Bool :=
  events.foldl (watch sql toUpper) (State.start reserved, false)

lemma watched_run (sql : Dialect) (toUpper : String → String) (reserved : Bool) (events : List Event) :
    (watched sql toUpper reserved events).1 = run sql toUpper (State.start reserved) events := by
  induction events using List.reverseRecOn with
  | nil => rfl
  | append_singleton earlier e ih =>
    simp only [watched, run, List.foldl_append, List.foldl_cons, List.foldl_nil] at ih ⊢
    rw [watch, ih]

/-- A backend of the pool: nothing is on its way and nothing is buffered. -/
structure Backend.Clean (b : Backend) : Prop where
  line : Quiet b.line
  unflushed : b.unflushed = []

lemma Backend.fresh_clean : Backend.fresh.Clean := ⟨⟨rfl, rfl, rfl, rfl⟩, rfl⟩

namespace State

/-- The count is right: what is awaited is what comes, up to an error. -/
structure Counted (sql : Dialect) (s : State) : Prop where
  none : s.line = none → s.awaiting = 0
  some : ∀ line, s.line = some line → Balanced sql line s.awaiting ∨ Line.mute sql line = true ∧ s.awaiting = 0

/-- What the current line is like in each phase, and that the count is right while nothing has
upset it. -/
structure Flowing (sql : Dialect) (s : State) (calm : Prop) : Prop where
  pool : ∀ b ∈ s.pool, b.Clean
  opens : s.phase = .ready ∨ s.phase = .flushing → ∀ line, s.line = some line → Open sql line
  counted : s.phase = .ready ∨ s.phase = .flushing → calm → s.Counted sql
  flushing : s.phase = .flushing → 0 < s.awaiting ∧ s.line ≠ none
  pumping : s.phase = .pumping → ∀ line, s.line = some line → Closing sql line

variable {s t : State} {m : Frontend} {b b' : Backend} {sql : Dialect} {r : Reply} {calm calm' : Prop} {line : Line}

lemma of_line {P : Line → Prop} (hline : t.line = some line) (h : P line) :
    ∀ line', t.line = some line' → P line' := by
  intro line' heq
  cases hline.symm.trans heq
  exact h

lemma counted_of_line (hline : t.line = some line)
    (h : Balanced sql line t.awaiting ∨ Line.mute sql line = true ∧ t.awaiting = 0) : t.Counted sql :=
  ⟨by rw [hline]; nofun, of_line hline h⟩

lemma Flowing.mono (h : s.Flowing sql calm) (hcalm : calm' → calm) : s.Flowing sql calm' :=
  { h with counted := fun hp hc => h.counted hp (hcalm hc) }

/-- What the invariant does not look at may change. -/
lemma Flowing.same (h : s.Flowing sql calm) (hpool : t.pool = s.pool) (hphase : t.phase = s.phase)
    (hline : t.line = s.line) (hawaiting : t.awaiting = s.awaiting) : t.Flowing sql calm := by
  constructor
  · rw [hpool]
    exact h.pool
  · rw [hphase, hline]
    exact h.opens
  · rw [hphase]
    intro hp hc
    have hcounted := h.counted hp hc
    exact ⟨by rw [hline, hawaiting]; exact hcounted.none, by rw [hline, hawaiting]; exact hcounted.some⟩
  · rw [hphase, hawaiting, hline]
    exact h.flushing
  · rw [hphase, hline]
    exact h.pumping

lemma Flowing.of_ready (hpool : ∀ b ∈ t.pool, b.Clean) (hphase : t.phase = .ready)
    (hopens : ∀ line, t.line = some line → Open sql line) (hcounted : calm → t.Counted sql) : t.Flowing sql calm where
  pool := hpool
  opens _ := hopens
  counted _ := hcounted
  flushing h := by rw [hphase] at h; cases h
  pumping h := by rw [hphase] at h; cases h

/-- Without a backend the next messages go to a line where nothing is on its way. -/
lemma Flowing.of_none (hpool : ∀ b ∈ t.pool, b.Clean) (hphase : t.phase = .ready)
    (hnone : t.line = none) (hcalm : calm → t.awaiting = 0) : t.Flowing sql calm :=
  Flowing.of_ready hpool hphase (by rw [hnone]; nofun) fun hc => ⟨fun _ => hcalm hc, by rw [hnone]; nofun⟩

/-- A line with one message more. -/
lemma Flowing.of_pumping (hpool : ∀ b ∈ t.pool, b.Clean) (hphase : t.phase = .pumping)
    (hcloses : ∀ line, t.line = some line → Closing sql line) : t.Flowing sql calm where
  pool := hpool
  opens h := by simp [hphase] at h
  counted h := by simp [hphase] at h
  flushing h := by rw [hphase] at h; cases h
  pumping _ := hcloses

lemma start_flowing (sql : Dialect) (reserved : Bool) : (State.start reserved).Flowing sql True :=
  Flowing.of_none nofun rfl rfl fun _ => rfl

lemma flush_line (t : State) : t.flush.line = t.line := by
  unfold flush
  split
  · rfl
  · rename_i hb
    simp [State.line, hb]

lemma flush_kept (t : State) : t.flush.pool = t.pool ∧ t.flush.awaiting = t.awaiting := by
  unfold flush
  split <;> exact ⟨rfl, rfl⟩

lemma backendLost_flowing (hpool : ∀ b ∈ s.pool, b.Clean) : s.backendLost.Flowing sql False :=
  Flowing.of_none hpool rfl rfl nofun

lemma refuse_flowing (h : s.Flowing sql calm) (hphase : s.phase = .ready) (e : Refusal) :
    (s.refuse e).Flowing sql (calm ∧ s.drops = false) := by
  cases hdrops : s.drops with
  | false =>
    have hkeeps : s.dropUnflushed = s := by
      unfold dropUnflushed
      split
      · rfl
      · rename_i b hb
        simp only [drops, hb, Option.map_some, Option.getD_some, Bool.not_eq_false', List.isEmpty_iff] at hdrops
        rw [if_pos hdrops]
    apply (h.mono And.left).same
    · simp [refuse, hkeeps, send]
    · exact hphase.symm
    · simp [refuse, hkeeps, send, State.line]
    · simp [refuse, hkeeps, send]
  | true =>
    have hgone : s.dropUnflushed.line = none ∧ s.dropUnflushed.pool = s.pool := by
      unfold dropUnflushed
      split
      · rename_i hb
        simp [drops, hb] at hdrops
      · rename_i b hb
        simp only [drops, hb, Option.map_some, Option.getD_some, Bool.not_eq_true', List.isEmpty_eq_false_iff] at hdrops
        rw [if_neg hdrops]
        exact ⟨rfl, rfl⟩
    apply Flowing.of_none
    · change ∀ b ∈ s.dropUnflushed.pool, _
      rw [hgone.2]
      exact h.pool
    · rfl
    · exact hgone.1
    · simp

variable {req : Request} {l : Handling}

lemma got_clean {pool : List Backend} (hpool : ∀ b ∈ pool, b.Clean) (a : Acquire) :
    (got pool a).1.Clean ∧ ∀ b ∈ (got pool a).2, b.Clean := by
  cases a with
  | pooled i =>
    constructor
    · change (pool.getD i Backend.fresh).Clean
      rw [List.getD_eq_getElem?_getD]
      cases hi : pool[i]? with
      | none => exact Backend.fresh_clean
      | some b => exact hpool b (List.mem_of_getElem? hi)
    · intro b hb
      exact hpool b (List.mem_of_mem_eraseIdx hb)
  | _ => exact ⟨Backend.fresh_clean, hpool⟩

/-- The admission keeps the invariant, the buffered messages and what PostgreSQL skips. -/
lemma admitted_flowing (h : s.Flowing sql calm) (hphase : s.phase = .ready) (req : Request)
    (l : Handling) : (s.admitted req l).Flowing sql calm ∧ (s.admitted req l).drops = s.drops ∧
      (s.admitted req l).mute sql = s.mute sql := by
  obtain ⟨⟨hquiet, hun⟩, hrest⟩ := got_clean h.pool l.acquire
  have hadmits := ({ s with taken := s.taken ++ [req] } : State).admission_admits req l
  unfold admitted
  generalize ({ s with taken := s.taken ++ [req] } : State).admission req l = x at hadmits ⊢
  cases hadmits with
  | refused e => exact ⟨h.same rfl rfl rfl rfl, rfl, rfl⟩
  | kept hkept => exact ⟨h.same rfl rfl rfl rfl, rfl, rfl⟩
  | returned hnone =>
    refine ⟨Flowing.of_none hrest hphase ?_ fun hc => (h.counted (.inl hphase) hc).none ?_, rfl, rfl⟩
    · exact congrArg (Option.map Backend.line) hnone
    · exact congrArg (Option.map Backend.line) hnone
  | adopted hnone =>
    -- nothing is on its way on the backend it gets
    have hnone : s.backend = none := hnone
    refine ⟨Flowing.of_ready hrest hphase (of_line rfl hquiet.opens) fun hc => counted_of_line rfl ?_, ?_, ?_⟩
    · have hzero := (h.counted (.inl hphase) hc).none (by simp [State.line, hnone])
      exact .inl (by rw [show State.awaiting _ = 0 from hzero]; exact hquiet.balanced)
    · simp [drops, hun, hnone]
    · simp [mute, State.line, hnone, Line.mute, hquiet.session, hquiet.skipping]

/-- What buffering a message does: `ms` are the messages written for it. -/
structure Buffers (t : State) (b : Backend) (ms : List (Frontend × Effect)) (t' : State) : Prop where
  line : t'.line = some (ms.foldl Pipe.put b.line)
  awaiting : t'.awaiting = t.awaiting + ms.length
  phase : t'.phase = t.phase
  pool : t'.pool = t.pool

lemma forward_buffers (toUpper : String → String) (t : State) (b : Backend) (position : Nat)
    (l : Handling) (ho : m.owes = true) (hc : Relay.copyless (m, l.effect) = true) :
    ∃ ms, Buffers t b ms (t.forward toUpper b position m l) ∧
      ∀ m' ∈ ms, m'.1.owes = true ∧ Relay.copyless m' = true := by
  have hself : ∀ m' ∈ [(m, l.effect)], m'.1.owes = true ∧ Relay.copyless m' = true := by
    intro m' hm'
    rw [List.mem_singleton.mp hm']
    exact ⟨ho, hc⟩
  cases m with
  | parse name text oids =>
    unfold forward
    dsimp only
    split
    · exact ⟨_, ⟨rfl, rfl, rfl, rfl⟩, hself⟩
    · unfold forwardParse
      dsimp only
      split
      · refine ⟨[(.closePortal noopPortal, l.effect)], ⟨rfl, rfl, rfl, rfl⟩, ?_⟩
        intro m' hm'
        rw [List.mem_singleton.mp hm']
        exact ⟨rfl, rfl⟩
      · split
        · refine ⟨[(.closeStatement name, l.closing), (.parse name text oids, l.effect)], ⟨rfl, rfl, rfl, rfl⟩, ?_⟩
          intro m' hm'
          rcases List.mem_cons.mp hm' with rfl | hm'
          · exact ⟨rfl, rfl⟩
          · exact hself m' hm'
        · exact ⟨_, ⟨rfl, rfl, rfl, rfl⟩, hself⟩
  | closeStatement name =>
    refine ⟨_, ⟨?_, rfl, rfl, rfl⟩, hself⟩
    unfold forward
    dsimp only
    split <;> rfl
  | bind | describeStatement | describePortal | execute | closePortal =>
    exact ⟨_, ⟨rfl, rfl, rfl, rfl⟩, hself⟩
  | _ => cases ho

lemma owes_ends (ho : m.owes = true) : m.ends = false ∧ m.flushes = false := by
  cases m <;> first | exact ⟨rfl, rfl⟩ | cases ho

/-- Buffering messages that are owed answers. -/
lemma Open.put_all (h : Open sql line) (ms : List (Frontend × Effect))
    (hms : ∀ m ∈ ms, m.1.owes = true ∧ Relay.copyless m = true) :
    Open sql (ms.foldl Pipe.put line) ∧ ∀ n, Balanced sql line n →
      Balanced sql (ms.foldl Pipe.put line) (n + ms.length) := by
  induction ms using List.reverseRecOn with
  | nil => exact ⟨h, fun _ hn => hn⟩
  | append_singleton ms m ih =>
    obtain ⟨ho, hc⟩ := hms m (by simp)
    obtain ⟨hopen, hcount⟩ := ih fun m' hm' => hms m' (List.mem_append_left _ hm')
    rw [List.foldl_append, List.length_append]
    exact ⟨hopen.put hc (owes_ends ho).1, fun n hn => (hcount n hn).put hopen hc ho⟩

lemma owed_of_counted (h : s.Counted sql) (hline : s.line = some line) (herr : Reply.error ∉ Line.coming sql line) :
    s.awaiting = (Line.coming sql line).countP terminatesMessage := by
  rcases h.some _ hline with hbalanced | ⟨hmute, hzero⟩
  · cases hbalanced with
    | flows hs _ hn => exact hn
    | fails hs hcoming _ hn => simp [hcoming] at herr
  · simp only [Line.mute, Bool.and_eq_true, List.isEmpty_iff] at hmute
    rw [hmute.2, hzero]
    rfl

lemma coming_of_line (hline : s.line = some line) : s.coming sql = Line.coming sql line := by
  simp [coming, hline]

lemma Buffers.flowing {ms : List (Frontend × Effect)} (hbuf : Buffers s b ms t)
    (h : s.Flowing sql calm) (hphase : s.phase = .ready) (hb : s.line = some b.line)
    (hms : ∀ m ∈ ms, m.1.owes = true ∧ Relay.copyless m = true) : t.Flowing sql (calm ∧ s.mute sql = false) := by
  obtain ⟨hopen, hcount⟩ := Open.put_all (h.opens (.inl hphase) _ hb) ms hms
  apply Flowing.of_ready
  · rw [hbuf.pool]
    exact h.pool
  · exact hbuf.phase.trans hphase
  · exact of_line hbuf.line hopen
  · rintro ⟨hc, hmute⟩
    refine counted_of_line hbuf.line ?_
    rcases (h.counted (.inl hphase) hc).some _ hb with hbalanced | ⟨hmuted, -⟩
    · rw [hbuf.awaiting]
      exact .inl (hcount _ hbalanced)
    · simp [mute, hb, hmuted] at hmute

/-- A message that ends the batch is written and pumped for. -/
lemma pump_flowing {m : Frontend × Effect} (hbuf : Buffers s b [m] t) (h : s.Flowing sql calm)
    (hphase : s.phase = .ready) (hb : s.line = some b.line) (hm : Relay.copyless m = true)
    (he : m.1.ends = true) (flushes : Bool) :
    (State.pump { t with copyBytes := 0 } flushes).Flowing sql (calm ∧ flushes = true) := by
  unfold pump
  split
  · apply Flowing.of_pumping
    · rw [(flush_kept _).1]
      exact hbuf.pool ▸ h.pool
    · rfl
    · exact of_line ((flush_line _).trans hbuf.line) ((h.opens (.inl hphase) _ hb).put_final hm he)
  · rename_i hfails
    exact (backendLost_flowing (by exact hbuf.pool ▸ h.pool)).mono fun hc => hfails hc.2

/-- A Flush that is buffered asks for no reply of its own. -/
lemma sendFlush_flowing (h : s.Flowing sql calm) (hphase : s.phase = .ready) (hb : s.line = some b.line)
    (position : Nat) (e : Effect) :
    ({ s with backend := some (b.send position .flush e) } : State).Flowing sql calm := by
  have hopen := h.opens (.inl hphase) _ hb
  have hsilent := process_flush sql hopen.copying e
  have hsession : Line.session sql (b.send position .flush e).line = Line.session sql b.line :=
    (session_put _).trans (congrArg Prod.fst hsilent)
  have hcoming : Line.coming sql (b.send position .flush e).line = Line.coming sql b.line :=
    (coming_put _).trans (by rw [hsilent, List.append_nil])
  apply Flowing.of_ready
  · exact h.pool
  · exact hphase
  · exact of_line rfl (hopen.put rfl rfl)
  · intro hc
    refine counted_of_line rfl ?_
    rcases (h.counted (.inl hphase) hc).some _ hb with hbalanced | ⟨hmute, hzero⟩
    · exact .inl (hbalanced.of_same hcoming hsession)
    · exact .inr ⟨by rw [Line.mute, hsession, hcoming]; exact hmute, hzero⟩

/-- A Flush: the count is right when the wait begins, or there is nothing to wait for. -/
lemma pumpFlush_flowing (h : s.Flowing sql calm) (hphase : s.phase = .ready) (hb : s.line = some b.line)
    (position : Nat) (e : Effect) (flushes : Bool) :
    (State.pumpFlush { s with backend := some (b.send position .flush e) } flushes).Flowing sql
      (calm ∧ flushes = true) := by
  have hsame := sendFlush_flowing h hphase hb position e
  obtain ⟨hpool, hawaiting⟩ := flush_kept { s with backend := some (b.send position .flush e) }
  unfold pumpFlush
  split
  · split
    · apply (hsame.mono And.left).same
      · exact hpool
      · exact hphase.symm
      · exact flush_line _
      · exact hawaiting
    · rename_i hawaits
      constructor
      · exact fun b hb => h.pool b (hpool ▸ hb)
      · intro _ line hline
        exact hsame.opens (.inl hphase) line ((flush_line _).symm.trans hline)
      · rintro - ⟨hc, -⟩
        exact { hsame.counted (.inl hphase) hc with }
      · intro _
        exact ⟨Nat.pos_of_ne_zero hawaits, nofun⟩
      · nofun
  · rename_i hfails
    exact (backendLost_flowing h.pool).mono fun hc => hfails hc.2

lemma forward_final (toUpper : String → String) (t : State) (b : Backend) (position : Nat)
    (l : Handling) (he : m.ends = true) : Buffers t b [(m, l.effect)] (t.forward toUpper b position m l) := by
  cases m with
  | sync | query _ => exact ⟨rfl, rfl, rfl, rfl⟩
  | _ => cases he

lemma relay_flowing (toUpper : String → String) (h : s.Flowing sql calm) (hphase : s.phase = .ready)
    (hb : s.backend = some b) (position : Nat) (l : Handling) (hc : Relay.copyless (m, l.effect) = true) :
    (s.relay toUpper b position m l).Flowing sql (calm ∧ (m.flushes = true → l.flushes = true) ∧
      (m.owes = true → s.mute sql = false)) := by
  have hline : s.line = some b.line := congrArg (Option.map Backend.line) hb
  have hbuffered : m.owes = true → (s.forward toUpper b position m l).Flowing sql
      (calm ∧ s.mute sql = false) := by
    intro ho
    obtain ⟨ms, hbuf, hms⟩ := forward_buffers toUpper s b position l ho hc
    exact hbuf.flowing h hphase hline hms
  cases m with
  | flush =>
    exact (pumpFlush_flowing h hphase hline position l.effect l.flushes).mono fun hc => ⟨hc.1, hc.2.1 rfl⟩
  | sync | query _ =>
    exact (pump_flowing (forward_final toUpper s b position l rfl) h hphase hline hc rfl l.flushes).mono
      fun hc => ⟨hc.1, hc.2.1 rfl⟩
  | copyData _ | copyDone | copyFail => cases hc
  | _ => exact (hbuffered rfl).mono fun hc => ⟨hc.1, hc.2.2 rfl⟩

/-- A request without a message is admitted and does nothing. -/
lemma handle_idle {toUpper : String → String} (hm : req.message = none) (hr : s.refusal req l = none) :
    s.handle toUpper req l = s.admitted req l := by
  have hr' := (refusal_taken req l (s.taken ++ [req])).trans hr
  unfold handle admitted
  unfold refusal at hr'
  dsimp only
  split
  · rename_i e' s' hadm
    rw [hadm] at hr'
    cases hr'
  · rename_i s' hadm
    rw [hadm]
    simp only [hm]

lemma handle_flowing (toUpper : String → String) (h : s.Flowing sql calm) (hphase : s.phase = .ready)
    (hc : (Event.request req l).copyless = true) :
    (s.handle toUpper req l).Flowing sql (calm ∧ s.upsets sql (.request req l) = false) := by
  obtain ⟨hadmitted, hdrops, hmute⟩ := admitted_flowing h hphase req l
  have hphase' : (s.admitted req l).phase = .ready := (s.admitted_frame req l).phase.trans hphase
  cases hr : s.refusal req l with
  | some e =>
    rw [handle_refused hr]
    have hnoted : ({ s.admitted req l with
        refused := (s.admitted req l).refused ++ [s.taken.length] } : State).Flowing sql calm :=
      hadmitted.same rfl rfl rfl rfl
    apply (refuse_flowing hnoted hphase' e).mono
    rintro ⟨hcalm, hupsets⟩
    refine ⟨hcalm, hdrops.trans ?_⟩
    simpa [upsets, hphase, hr] using hupsets
  | none =>
    cases hm : req.message with
    | none =>
      rw [handle_idle hm hr]
      exact hadmitted.mono And.left
    | some m =>
      obtain ⟨b, hback, hrelay⟩ := handle_admitted toUpper hm hr
      rw [hrelay]
      apply (relay_flowing toUpper hadmitted hphase' hback s.taken.length l
        (by simpa [Event.copyless, hm] using hc)).mono
      rintro ⟨hcalm, hupsets⟩
      simp only [upsets, hphase, hr, hm, beq_self_eq_true, Option.isSome_none, Bool.true_and,
        Bool.false_eq_true, if_false, Option.map_some, Option.getD_some, Bool.or_eq_false_iff,
        Bool.and_eq_false_imp, Bool.not_eq_false'] at hupsets
      exact ⟨hcalm, hupsets.1, fun ho => hmute.trans (hupsets.2 ho)⟩

lemma deliver_kept (t : State) (r : Reply) : (t.deliver r).line = t.line ∧ (t.deliver r).pool = t.pool ∧
      (t.deliver r).awaiting = t.awaiting ∧ (t.deliver r).phase = t.phase := by
  unfold deliver
  split
  all_goals exact ⟨rfl, rfl, rfl, rfl⟩

lemma count_kept (t : State) (r : Reply) :
    (t.count r).line = t.line ∧ (t.count r).pool = t.pool ∧ (t.count r).phase = t.phase := by
  unfold count
  split
  · exact ⟨rfl, rfl, rfl⟩
  · split <;> exact ⟨rfl, rfl, rfl⟩

/-- An error ends the wait; any other reply is taken off the count if it ends a message. -/
lemma count_awaiting (t : State) (r : Reply) : (t.count r).awaiting =
    if r = .error then 0 else t.awaiting - if terminatesMessage r then 1 else 0 := by
  unfold count
  split
  · rfl
  · split <;> rfl

lemma receive_line (h : b.receive sql = some (r, b')) : b.line.receive (Session.process sql) = some (r, b'.line) := by
  unfold Backend.receive at h
  split at h
  · cases h
  · rename_i r' line hline
    cases h
    exact hline

/-- What `pumpFlush` makes of a reply before it looks at the count. -/
def counted (s : State) (b : Backend) (r : Reply) : State := ({ s with backend := some b }.count r).deliver r

lemma counted_kept (s : State) (b : Backend) (r : Reply) : (s.counted b r).line = some b.line ∧
    (s.counted b r).pool = s.pool ∧ (s.counted b r).phase = s.phase := by
  obtain ⟨hline, hpool, -, hphase⟩ := deliver_kept (({ s with backend := some b } : State).count r) r
  obtain ⟨hline', hpool', hphase'⟩ := count_kept ({ s with backend := some b } : State) r
  exact ⟨hline.trans hline', hpool.trans hpool', hphase.trans hphase'⟩

lemma readFlush_eq (s : State) (b : Backend) (hgoes : r.goesOn = true) :
    s.readFlush b r = if (s.counted b r).awaiting = 0 then (s.counted b r).complete else s.counted b r := by
  simp only [Reply.goesOn, Bool.and_eq_true, Bool.not_eq_true'] at hgoes
  unfold readFlush
  dsimp only
  rw [if_neg (by simp [hgoes.2])]
  rfl

/-- The replies of `pumpFlush`, one by one. -/
lemma readFlush_flowing (h : s.Flowing sql calm) (hphase : s.phase = .flushing)
    (hb : s.backend = some b) (hr : b.receive sql = some (r, b')) :
    (s.readFlush b' r).Flowing sql calm ∧ r.goesOn = true := by
  have hline : s.line = some b.line := congrArg (Option.map Backend.line) hb
  obtain ⟨hgoes, hopen⟩ := (h.opens (.inr hphase) _ hline).receive (receive_line hr)
  obtain ⟨hline', hpool, hph⟩ := s.counted_kept b' r
  have hopens : ∀ line, (s.counted b' r).line = some line → Open sql line := of_line hline' hopen
  have hcounted : calm → (s.counted b' r).Counted sql := by
    intro hc
    refine counted_of_line hline' ?_
    have hawaiting : (s.counted b' r).awaiting = _ :=
      ((deliver_kept _ r).2.2.1).trans (count_awaiting { s with backend := some b' } r)
    rcases (h.counted (.inr hphase) hc).some _ hline with hbalanced | ⟨-, hzero⟩
    · rcases hbalanced.receive (receive_line hr) with ⟨herr, hmute⟩ | ⟨herr, hbalanced'⟩
      · rw [if_pos herr] at hawaiting
        exact .inr ⟨hmute, hawaiting⟩
      · rw [if_neg herr] at hawaiting
        rw [hawaiting]
        exact .inl hbalanced'
    · exact absurd hzero (Nat.ne_of_gt (h.flushing hphase).1)
  refine ⟨?_, hgoes⟩
  rw [readFlush_eq s b' hgoes]
  split
  · rename_i hzero
    apply Flowing.of_ready
    · exact fun b hb => h.pool b (hpool ▸ hb)
    · rfl
    · exact hopens
    · exact fun hc => { hcounted hc with }
  · rename_i hawaits
    constructor
    · rw [hpool]
      exact h.pool
    · exact fun _ => hopens
    · exact fun _ => hcounted
    · exact fun _ => ⟨Nat.pos_of_ne_zero hawaits, by rw [hline']; nofun⟩
    · rw [hph, hphase]
      nofun

/-- ReadyForQuery puts the count right, whatever it was. -/
lemma readPump_ready (hpool : ∀ b ∈ t.pool, b.Clean) (hquiet : Quiet b.line) {status : Status}
    (recycles : Bool) : (t.readPump b (.ready status) recycles).Flowing sql True := by
  obtain ⟨u, hu⟩ : ∃ u, u = ({ (({ t with
      backend := some b
      batchErr := t.batchErr || Reply.ready status == Reply.error } : State).deliver
        (.ready status)).endBatch b with phase := Phase.ready } : State) := ⟨_, rfl⟩
  have hread : t.readPump b (.ready status) recycles = u.giveBack recycles := by
    rw [hu]
    rfl
  have hline : u.line = some b.line := by
    rw [hu]
    simp only [State.line, endBatch, Option.map_some]
    split <;> rfl
  have hkept : u.pool = t.pool ∧ u.phase = .ready ∧ u.awaiting = 0 := by
    rw [hu]
    exact ⟨rfl, rfl, rfl⟩
  have hbatch : u.Flowing sql True := by
    apply Flowing.of_ready
    · exact hkept.1 ▸ hpool
    · exact hkept.2.1
    · exact of_line hline hquiet.opens
    · exact fun _ => counted_of_line hline (.inl (hkept.2.2 ▸ hquiet.balanced))
  rw [hread]
  unfold giveBack
  split
  · exact hbatch
  · rename_i b₁ hb₁
    have hquiet₁ : Quiet b₁.line := by
      have heq : u.line = some b₁.line := congrArg (Option.map Backend.line) hb₁
      rw [Option.some.inj (heq.symm.trans hline)]
      exact hquiet
    split
    · apply Flowing.of_none
      · intro b₂ hb₂
        dsimp only at hb₂
        split at hb₂
        · rename_i hclean
          rcases List.mem_append.mp hb₂ with hb₂ | hb₂
          · exact hbatch.pool b₂ hb₂
          · rw [List.mem_singleton.mp hb₂]
            simp only [Bool.and_eq_true, decide_eq_true_eq] at hclean
            exact ⟨⟨rfl, rfl, hquiet₁.queue, hquiet₁.out⟩, hclean.2⟩
        · exact hbatch.pool b₂ hb₂
      · exact hkept.2.1
      · rfl
      · exact fun _ => hkept.2.2
    · exact hbatch

lemma readPump_flowing (h : s.Flowing sql calm) (hphase : s.phase = .pumping)
    (hb : s.backend = some b) (hr : b.receive sql = some (r, b')) (recycles : Bool) :
    (s.readPump b' r recycles).Flowing sql (r.isReady = true ∨ calm) := by
  have hline : s.line = some b.line := congrArg (Option.map Backend.line) hb
  rcases (h.pumping hphase _ hline).receive (receive_line hr) with ⟨hready, hquiet⟩ | ⟨hgoes, hcloses⟩
  · cases r with
    | ready status => exact (readPump_ready h.pool hquiet recycles).mono fun _ => trivial
    | _ => cases hready
  · simp only [Reply.goesOn, Bool.and_eq_true, Bool.not_eq_true'] at hgoes
    obtain ⟨hready, htakes⟩ := hgoes
    obtain ⟨hline', hpool, -, hph⟩ := deliver_kept
      ({ s with backend := some b', batchErr := s.batchErr || r == Reply.error }) r
    have hsame : s.readPump b' r recycles =
        ({ s with backend := some b', batchErr := s.batchErr || r == Reply.error } : State).deliver r := by
      unfold readPump
      dsimp only
      split
      · cases hready
      · rw [if_neg (by simp [htakes])]
    rw [hsame]
    apply Flowing.of_pumping
    · rw [hpool]
      exact h.pool
    · rw [hph]
      exact hphase
    · exact of_line hline' hcloses

end State

variable {sql : Dialect} {toUpper : String → String}

lemma step_flowing {s : State} {e : Event} {calm : Prop} (h : s.Flowing sql calm) (hc : e.copyless = true) :
    (step sql toUpper s e).Flowing sql (s.settles sql e = true ∨ calm ∧ s.upsets sql e = false) := by
  cases e with
  | request req l =>
    by_cases hphase : s.phase = .ready
    · rw [step, if_pos hphase]
      exact (State.handle_flowing toUpper h hphase hc).mono fun h => h.resolve_left Bool.false_ne_true
    · rw [step, if_neg hphase]
      exact h.mono fun h => (h.resolve_left Bool.false_ne_true).1
  | reads recycles =>
    have hstays : s.settles sql (.reads recycles) = false → s.Flowing sql
        (s.settles sql (.reads recycles) = true ∨ calm ∧ s.upsets sql (.reads recycles) = false) :=
      fun hno => h.mono fun h => (h.resolve_left (by simp [hno])).1
    change (s.read sql recycles).Flowing sql _
    unfold State.read
    split
    · rename_i hb
      exact hstays (by simp [State.settles, hb])
    · rename_i b hb
      split
      · rename_i hr
        exact hstays (by simp [State.settles, hb, hr])
      · rename_i r b' hr
        split
        · rename_i hphase
          apply (State.readPump_flowing h hphase hb hr recycles).mono
          rintro (hsettles | hcalm)
          · exact .inl (by simpa [State.settles, hb, hr, hphase] using hsettles)
          · exact .inr hcalm.1
        · rename_i hphase
          exact (State.readFlush_flowing h hphase hb hr).1.mono
            fun h => (h.resolve_left (by simp [State.settles, hphase])).1
        · rename_i hphase _
          exact hstays (by simpa [State.settles] using fun hp => absurd hp hphase)
  | lost =>
    rw [step]
    split
    · rename_i hpumps
      apply (State.backendLost_flowing h.pool).mono
      rintro (hsettles | ⟨-, hupsets⟩)
      · cases hsettles
      · simp [State.upsets, hpumps] at hupsets
    · apply h.mono
      rintro (hsettles | hcalm)
      · cases hsettles
      · exact hcalm.1
  | gone => exact ⟨h.pool, by simp [step], by simp [step], by simp [step], by simp [step]⟩
  | reserve reserved =>
    have hsame : (step sql toUpper s (.reserve reserved)).Flowing sql calm := h.same rfl rfl rfl rfl
    apply hsame.mono
    rintro (hsettles | hcalm)
    · cases hsettles
    · exact hcalm.1

lemma watched_flowing (sql : Dialect) (toUpper : String → String) (reserved : Bool)
    (events : List Event) (hc : ∀ e ∈ events, e.copyless = true) :
    (watched sql toUpper reserved events).1.Flowing sql ((watched sql toUpper reserved events).2 = false) := by
  induction events using List.reverseRecOn with
  | nil => exact (State.start_flowing sql reserved).mono fun _ => trivial
  | append_singleton earlier e ih =>
    rw [watched, List.foldl_append]
    apply (step_flowing (ih fun e' he' => hc e' (List.mem_append_left _ he')) (hc e (by simp))).mono
    intro hcalm
    simp only [List.foldl_cons, List.foldl_nil, watch, Bool.and_eq_false_iff, Bool.not_eq_false',
      Bool.or_eq_false_iff] at hcalm
    exact hcalm

/-- The replies a Flush waits for all come, and it is completed. -/
inductive Completes (sql : Dialect) : State → Prop where
  | done {s : State} (hphase : s.phase = .ready) (hsent : s.sent.getLast? = some .flushComplete) :
      Completes sql s
  | reads {s : State} (hphase : s.phase = .flushing) {b b' : Backend} {r : Reply}
      (hb : s.backend = some b) (hr : b.receive sql = some (r, b'))
      (h : Completes sql (s.readFlush b' r)) : Completes sql s

/-- A reply awaited is a reply to come. -/
lemma receives {s : State} (h : s.Flowing sql True) (hphase : s.phase = .flushing) :
    ∃ b r b', s.backend = some b ∧ b.receive sql = some (r, b') := by
  obtain ⟨hawaits, hsome⟩ := h.flushing hphase
  obtain ⟨line, hline⟩ := Option.ne_none_iff_exists'.mp hsome
  obtain ⟨b, hb, rfl⟩ := Option.map_eq_some_iff.mp hline
  cases hr : b.line.receive (Session.process sql) with
  | none =>
    have hnil : Line.coming sql b.line = [] := (Pipe.receive_eq_none _).mp hr
    rcases (h.counted (.inr hphase) trivial).some _ hline with hbalanced | ⟨-, hzero⟩
    · cases hbalanced with
      | flows hs herr hn => simp [hn, hnil] at hawaits
      | fails hs hcoming herr hn => simp [hnil] at hcoming
    · omega
  | some x =>
    exact ⟨b, x.1, _, hb, by rw [Backend.receive, hr]⟩

lemma completes_of_pending {s : State} (h : s.Flowing sql True) (hphase : s.phase = .flushing) : Completes sql s := by
  -- each reply read makes the list of those to come shorter
  induction hn : (s.coming sql).length using Nat.strongRecOn generalizing s with
  | ind n ih =>
    obtain ⟨b, r, b', hb, hr⟩ := receives h hphase
    obtain ⟨hnext, hgoes⟩ := State.readFlush_flowing h hphase hb hr
    obtain ⟨hline, -, hph⟩ := s.counted_kept b' r
    apply Completes.reads hphase hb hr
    rw [State.readFlush_eq s b' hgoes] at hnext ⊢
    split
    · exact .done rfl (by simp [State.complete, State.send])
    · rename_i hawaits
      rw [if_neg hawaits] at hnext
      refine ih _ ?_ hnext (hph.trans hphase) rfl
      have hold : s.line = some b.line := congrArg (Option.map Backend.line) hb
      rw [State.coming_of_line hline, ← hn, State.coming_of_line hold,
        (receive_coming (State.receive_line hr)).1, List.length_cons]
      omega

/-- A Flush that is admitted on a stream without COPY, when since the last ReadyForQuery of
PostgreSQL no backend with buffered messages was discarded, none was lost and no message was relayed
after the error of its batch had been read, waits for exactly the replies PostgreSQL owes, or until
the error that is coming; and it is completed. -/
theorem flush_waits_for_what_is_owed (sql : Dialect) (toUpper : String → String) (reserved : Bool)
    (events : List Event) (hcopy : ∀ e ∈ events, e.copyless = true)
    (hcalm : (watched sql toUpper reserved events).2 = false) (req : Request) (l : Handling)
    (hm : req.message = some .flush) (hflushes : l.flushes = true)
    (hphase : (run sql toUpper (State.start reserved) events).phase = .ready)
    (hadmitted : (run sql toUpper (State.start reserved) events).refusal req l = none) :
    (Reply.error ∉ ((run sql toUpper (State.start reserved) events).handle toUpper req l).coming sql →
        ((run sql toUpper (State.start reserved) events).handle toUpper req l).awaiting =
          ((run sql toUpper (State.start reserved) events).handle toUpper req l).owed sql) ∧
      Completes sql ((run sql toUpper (State.start reserved) events).handle toUpper req l) := by
  have hflowing := watched_flowing sql toUpper reserved events hcopy
  rw [hcalm, watched_run] at hflowing
  generalize run sql toUpper (State.start reserved) events = s at hflowing hphase hadmitted
  obtain ⟨b, hb, hhandle⟩ := State.handle_admitted toUpper hm hadmitted
  have hphase' : (s.admitted req l).phase = .ready := (s.admitted_frame req l).phase.trans hphase
  have hline : (s.admitted req l).line = some b.line := congrArg (Option.map Backend.line) hb
  have hflowing' := (State.admitted_flowing hflowing hphase req l).1
  have hnext := State.pumpFlush_flowing hflowing' hphase' hline s.taken.length l.effect true
  have hcounted := State.owed_of_counted ((State.sendFlush_flowing hflowing' hphase' hline
    s.taken.length l.effect).counted (.inl hphase') rfl) rfl
  have hpump : s.handle toUpper req l = State.pumpFlush
      { s.admitted req l with backend := some (b.send s.taken.length .flush l.effect) } true := by
    rw [hhandle, ← hflushes]
    rfl
  rw [hpump]
  unfold State.pumpFlush at hnext ⊢
  rw [if_pos rfl] at hnext ⊢
  split
  · exact ⟨hcounted, .done rfl (by simp [State.complete, State.send])⟩
  · rename_i hawaits
    rw [if_neg hawaits] at hnext
    exact ⟨hcounted, completes_of_pending (hnext.mono fun _ => ⟨rfl, rfl⟩) rfl⟩

/-- A request that fails when PostgreSQL gets to it. -/
def failing (m : Frontend) : Event :=
  .request ⟨some ⟨1, 1⟩, some m⟩
    ⟨view, false, .dialled, false, view, { Effect.plain with fails := true }, Effect.plain, true⟩

/-- After a Sync a Parse and a Flush: nothing has upset the count. -/
theorem flush_of_a_parse :
    let s := run ⟨fun _ => false, fun _ => false⟩ id (State.start true)
      [request 1 .sync, .reads true, request 1 (.parse "" "SELECT 1" [])]
    s.awaiting = 1 ∧ Completes ⟨fun _ => false, fun _ => false⟩
      (s.handle id ⟨some ⟨1, 1⟩, some .flush⟩
        ⟨view, false, .dialled, false, view, Effect.plain, Effect.plain, true⟩) := by
  refine ⟨by decide +kernel, ?_⟩
  exact (flush_waits_for_what_is_owed ⟨fun _ => false, fun _ => false⟩ id true
    [request 1 .sync, .reads true, request 1 (.parse "" "SELECT 1" [])] (by decide) (by decide +kernel)
    ⟨some ⟨1, 1⟩, some .flush⟩ ⟨view, false, .dialled, false, view, Effect.plain, Effect.plain, true⟩
    rfl rfl (by decide +kernel) (by decide +kernel)).2

/-- A Parse is buffered and a Bind refused for a stale generation, which discards the backend with
the Parse; the Flush after the next Parse then waits for two replies where PostgreSQL owes one. And
a Parse that fails is flushed, then a Bind before the Sync: its Flush waits for the reply to a
message PostgreSQL skips. Either way PostgreSQL has nothing more to send. -/
theorem flush_waits_for_nothing :
    (let s := run ⟨fun _ => false, fun _ => false⟩ id (State.start true)
      [request 1 (.parse "" "SELECT 1" []), request 0 (.bind "" ""),
        request 1 (.parse "" "SELECT 1" []), request 1 .flush, .reads true]
     s.phase = .flushing ∧ s.awaiting = 1 ∧ s.owed ⟨fun _ => false, fun _ => false⟩ = 0 ∧
      (s.backend.map fun b => (b.receive ⟨fun _ => false, fun _ => false⟩).isNone) = some true) ∧
    (let s := run ⟨fun _ => false, fun _ => false⟩ id (State.start true)
      [failing (.parse "" "SELEC" []), request 1 .flush, .reads true, request 1 (.bind "" ""), request 1 .flush]
     s.phase = .flushing ∧ s.awaiting = 1 ∧ s.owed ⟨fun _ => false, fun _ => false⟩ = 0 ∧
      (s.backend.map fun b => (b.receive ⟨fun _ => false, fun _ => false⟩).isNone) = some true) := by
  decide +kernel

end PgShard.Relay
