import PgShard.Relay.Relay
import PgShard.Runs.Offence

/-!
# One answer for each batch

A router reads the answers of a batch up to its ReadyForQuery, so there has to be exactly one for
each Sync and each simple query. A refusal answers with a ReadyForQuery of its own wherever in the
batch it strikes, and says nothing to the messages that follow: the count holds exactly as long as
refusals strike nothing but a Sync or a simple query and no batch runs into a COPY.
-/

namespace PgShard.Relay

/-- The messages of an extended-protocol batch, and the simple query. -/
def Frontend.batched : Frontend → Bool
  | .flush => false
  | .copyData _ => false
  | .copyDone => false
  | .copyFail => false
  | _ => true

/-- The messages PostgreSQL answers with ReadyForQuery. -/
def Frontend.ends : Frontend → Bool
  | .sync => true
  | .query _ => true
  | _ => false

def Request.ends (req : Request) : Bool := (req.message.map Frontend.ends).getD false

def Event.batched : Event → Bool
  | .request req _ => (req.message.map Frontend.batched).getD false
  | _ => true

def Response.isReady : Response → Bool
  | .reply (.ready _) => true
  | _ => false

namespace State

/-- The ReadyForQuery messages sent. -/
def answers (s : State) : Nat := s.sent.countP Response.isReady

/-- The Sync and simple-query requests taken. -/
def ends (s : State) : Nat := s.taken.countP Request.ends

/-- Between two requests every Sync and simple query has had its one ReadyForQuery. -/
def OneAnswerEach (s : State) : Prop := s.phase = .ready → s.answers = s.ends

/-- A message that follows a refused one in its batch has not been written to PostgreSQL. -/
def NothingAfterRefusal (s : State) : Prop :=
  ∀ i ∈ s.refused, ∀ j ∈ s.written, i < j → ∃ k req, i ≤ k ∧ k < j ∧ s.taken[k]? = some req ∧ req.ends = true

/-- Whether the fences or the pool refuse the request. -/
def refusal (s : State) (req : Request) (l : Handling) : Option Refusal := (s.admission req l).1

end State

/-- A refusal strikes only what ends a batch, and no pump is taken over by a COPY. -/
def Orderly (sql : Dialect) (s : State) : Event → Prop
  | .request req l => s.phase = .ready → (s.refusal req l).isSome = true → req.ends = true
  | .reads _ => s.phase = .pumping → ∀ b r b', s.backend = some b → b.receive sql = some (r, b') →
      State.takesOver r = false
  | _ => True

/-! ## What the parts of a request leave alone -/

structure Frame (s t : State) : Prop where
  sent : t.sent = s.sent
  phase : t.phase = s.phase
  taken : t.taken = s.taken
  refused : t.refused = s.refused

namespace State

variable {s : State}

/-- How an admission ends: the request is refused, the session has its backend, or it gets one and
the request passes the fences again. -/
inductive Admits (s : State) (req : Request) (l : Handling) : Option Refusal × State → Prop where
  | refused (e : Refusal) : Admits s req l (some e, s)
  | kept (h : req.message.isSome = true → s.backend ≠ none) : Admits s req l (none, s)
  | returned (hnone : s.backend = none) :
      Admits s req l (some .draining, { s with pool := (got s.pool l.acquire).2 })
  | adopted (hnone : s.backend = none) :
      Admits s req l (gate l.viewAfter req,
        { s with backend := some (got s.pool l.acquire).1, pool := (got s.pool l.acquire).2 })

lemma admission_admits (s : State) (req : Request) (l : Handling) : Admits s req l (s.admission req l) := by
  unfold admission
  split
  · exact .refused _
  · split
    · rename_i hneed
      simp only [Bool.and_eq_true, Option.isNone_iff_eq_none] at hneed
      have hadopt : Admits s req l (s.adopt req l) := by
        unfold adopt
        dsimp only
        split
        · exact .returned hneed.2
        · exact .adopted hneed.2
      unfold acquire
      split
      · exact .refused _
      · split
        · exact .refused _
        · exact .refused _
        · exact hadopt
        · exact hadopt
    · rename_i hneed
      exact .kept fun hm hnone => hneed (by simp [hm, hnone])

lemma admission_frame (req : Request) (l : Handling) : Frame s (s.admission req l).2 := by
  have h := s.admission_admits req l
  generalize s.admission req l = x at h ⊢
  cases h <;> exact ⟨rfl, rfl, rfl, rfl⟩

/-- The fences do not look at the requests taken before. -/
lemma refusal_taken (req : Request) (l : Handling) (taken : List Request) :
    ({ s with taken := taken } : State).refusal req l = s.refusal req l := by
  unfold refusal admission acquire adopt
  dsimp only
  repeat' split
  all_goals rfl

/-- A message that is admitted has a backend. -/
lemma admission_backend {req : Request} {l : Handling} {m : Frontend} (hm : req.message = some m)
    (hr : s.refusal req l = none) : ∃ b, (s.admission req l).2.backend = some b := by
  have h := s.admission_admits req l
  unfold refusal at hr
  generalize s.admission req l = x at h hr ⊢
  cases h with
  | refused e => cases hr
  | kept h => exact Option.ne_none_iff_exists'.mp (h (by simp [hm]))
  | returned hnone => cases hr
  | adopted hnone => exact ⟨_, rfl⟩

lemma forward_frame (toUpper : String → String) (b : Backend) (position : Nat) (m : Frontend)
    (l : Handling) : Frame s (s.forward toUpper b position m l) := by
  unfold forward forwardParse
  dsimp only
  repeat' split
  all_goals exact ⟨rfl, rfl, rfl, rfl⟩

lemma dropUnflushed_frame : Frame s s.dropUnflushed := by
  unfold dropUnflushed
  repeat' split
  all_goals exact ⟨rfl, rfl, rfl, rfl⟩

lemma flush_frame : Frame s s.flush := by
  unfold flush
  split <;> exact ⟨rfl, rfl, rfl, rfl⟩

/-- A part of a step that sends so many ReadyForQuery and takes and refuses nothing. -/
structure Adds (n : Nat) (s t : State) : Prop where
  answers : t.answers = s.answers + n
  taken : t.taken = s.taken
  refused : t.refused = s.refused

lemma Adds.ends {n : Nat} {t : State} (h : Adds n s t) : t.ends = s.ends := by
  rw [State.ends, h.taken, State.ends]

lemma Frame.adds {t : State} (h : Frame s t) : Adds 0 s t :=
  ⟨congrArg (List.countP Response.isReady) h.sent, h.taken, h.refused⟩

lemma answers_send (r : Response) : (s.send r).answers = s.answers + if r.isReady then 1 else 0 := by
  simp [answers, send, List.countP_append, List.countP_cons]

/-- A refusal is one answer. -/
lemma refuse_adds (e : Refusal) : Adds 1 s (s.refuse e) := by
  have hframe := dropUnflushed_frame (s := s)
  refine ⟨?_, hframe.taken, hframe.refused⟩
  unfold refuse
  dsimp only
  rw [answers_send, answers_send]
  simp [answers, hframe.sent, Response.isReady]

lemma backendLost_adds : Adds 1 s s.backendLost :=
  { refuse_adds (s := { s with closes := [], parsed := [], batchErr := false, backend := none }) .backendLost with }

lemma deliver_spec (r : Reply) : (s.deliver r).phase = s.phase ∧
      Adds (if (Response.reply r).isReady then 1 else 0) s (s.deliver r) := by
  unfold deliver
  split
  · exact ⟨rfl, rfl, rfl, rfl⟩
  · exact ⟨rfl, by rw [answers_send]; rfl, rfl, rfl⟩
  · exact ⟨rfl, by rw [answers_send]; rfl, rfl, rfl⟩
  · exact ⟨rfl, answers_send _, rfl, rfl⟩

lemma giveBack_spec (recycles : Bool) : Frame s (s.giveBack recycles) := by
  unfold giveBack
  repeat' split
  all_goals exact ⟨rfl, rfl, rfl, rfl⟩

variable {toUpper : String → String} {req : Request} {l : Handling}

/-- The state a request is relayed in. -/
def admitted (s : State) (req : Request) (l : Handling) : State :=
  ({ s with taken := s.taken ++ [req] } : State).admission req l |>.2

lemma admitted_frame (req : Request) (l : Handling) : Frame { s with taken := s.taken ++ [req] } (s.admitted req l) :=
  admission_frame req l

lemma handle_refused {e : Refusal} (h : s.refusal req l = some e) : s.handle toUpper req l =
      { s.admitted req l with refused := (s.admitted req l).refused ++ [s.taken.length] }.refuse e := by
  rw [← refusal_taken req l (s.taken ++ [req])] at h
  unfold handle admitted
  unfold refusal at h
  dsimp only
  split
  · rename_i e' s' hadm
    rw [hadm] at h
    cases h
    rw [hadm]
  · rename_i s' hadm
    rw [hadm] at h
    cases h

lemma handle_admitted (toUpper : String → String) {m : Frontend} (hm : req.message = some m) (h : s.refusal req l = none) :
    ∃ b, (s.admitted req l).backend = some b ∧
      s.handle toUpper req l = (s.admitted req l).relay toUpper b s.taken.length m l := by
  rw [← refusal_taken req l (s.taken ++ [req])] at h
  obtain ⟨b, hb⟩ := admission_backend hm h
  refine ⟨b, hb, ?_⟩
  unfold handle admitted
  unfold refusal at h
  dsimp only
  split
  · rename_i e' s' hadm
    rw [hadm] at h
    cases h
  · rename_i s' hadm
    rw [hadm] at hb ⊢
    simp only [hm, show s'.backend = some b from hb]

lemma admitted_ends (s : State) (req : Request) (l : Handling) :
    (s.admitted req l).ends = s.ends + if req.ends then 1 else 0 := by
  rw [ends, (s.admitted_frame req l).taken]
  simp [ends, List.countP_append, List.countP_cons]

/-- Only what ends a batch was refused. -/
def RefusedEnds (s : State) : Prop := ∀ i ∈ s.refused, ∃ req, s.taken[i]? = some req ∧ req.ends = true

/-- Every Sync and simple query has been answered but the one the relay pumps for, and only such
requests were refused. -/
structure Answered (s : State) : Prop where
  count : match s.phase with
    | .ready => s.answers = s.ends
    | .pumping => s.answers + 1 = s.ends
    | .flushing => False
    | .ended => True
  refused : s.RefusedEnds

section

variable {t : State} {n : Nat}

lemma RefusedEnds.adds (href : s.RefusedEnds) (h : Adds n s t) : t.RefusedEnds := by
  unfold RefusedEnds
  rwa [h.taken, h.refused]

lemma Answered.of_ready (h : Adds n s t) (hphase : t.phase = .ready)
    (hcount : s.answers + n = s.ends) (href : s.RefusedEnds) : t.Answered :=
  ⟨by rw [hphase]; exact h.answers.trans (hcount.trans h.ends.symm), href.adds h⟩

lemma Answered.of_pumping (h : Adds n s t) (hphase : t.phase = .pumping)
    (hcount : s.answers + n + 1 = s.ends) (href : s.RefusedEnds) : t.Answered :=
  ⟨by rw [hphase]; change t.answers + 1 = t.ends; rw [h.answers, hcount, h.ends], href.adds h⟩

lemma Answered.ready (h : s.Answered) (hphase : s.phase = .ready) : s.answers = s.ends := by
  simpa [hphase] using h.count

lemma Answered.pumping (h : s.Answered) (hphase : s.phase = .pumping) : s.answers + 1 = s.ends := by
  simpa [hphase] using h.count

lemma pump_answered (flushes : Bool) (hcount : t.answers + 1 = t.ends) (href : t.RefusedEnds) :
    (t.pump flushes).Answered := by
  unfold pump
  split
  · have hadds : Adds 0 t { t.flush with phase := .pumping } := { (Frame.adds flush_frame) with }
    exact .of_pumping hadds rfl hcount href
  · exact .of_ready backendLost_adds rfl hcount href

end

lemma admitted_refusedEnds (h : s.RefusedEnds) (req : Request) (l : Handling) : (s.admitted req l).RefusedEnds := by
  have hframe := s.admitted_frame req l
  unfold RefusedEnds
  rw [hframe.refused, hframe.taken]
  intro i hi
  obtain ⟨req', htaken, hends⟩ := h i hi
  refine ⟨req', ?_, hends⟩
  rw [List.getElem?_append_left (List.getElem?_eq_some_iff.mp htaken).1]
  exact htaken

lemma handle_answered (h : s.Answered) (hphase : s.phase = .ready) {m : Frontend}
    (hm : req.message = some m) (hb : m.batched = true) (ho : (s.refusal req l).isSome = true → req.ends = true) :
    (s.handle toUpper req l).Answered := by
  have hframe := s.admitted_frame req l
  have hcount : (s.admitted req l).answers = s.ends := by
    rw [answers, hframe.sent]
    exact h.ready hphase
  have hends := s.admitted_ends req l
  have href := admitted_refusedEnds h.refused req l
  cases hr : s.refusal req l with
  | some e =>
    have hend : req.ends = true := ho (by simp [hr])
    rw [handle_refused hr]
    apply Answered.of_ready (refuse_adds e) rfl
    · change (s.admitted req l).answers + 1 = (s.admitted req l).ends
      rw [hcount, hends, if_pos hend]
    · intro i hi
      rcases List.mem_append.mp hi with hi | hi
      · exact href i hi
      · rw [List.mem_singleton.mp hi]
        refine ⟨req, ?_, hend⟩
        change (s.admitted req l).taken[s.taken.length]? = some req
        rw [hframe.taken]
        simp
  | none =>
    obtain ⟨b, hback, hrelay⟩ := handle_admitted toUpper hm hr
    rw [hrelay]
    have hfwd := (s.admitted req l).forward_frame toUpper b s.taken.length m l
    have hadds := Frame.adds hfwd
    have hreq : req.ends = m.ends := by simp [Request.ends, hm]
    rw [hreq] at hends
    -- a message of the batch is buffered; one that ends it is flushed and pumped for
    have hbuffered : m.ends = false → ((s.admitted req l).forward toUpper b s.taken.length m l).Answered := by
      intro hend
      apply Answered.of_ready hadds _ _ href
      · rw [hfwd.phase, hframe.phase]
        exact hphase
      · rw [hcount, hends, hend]
        rfl
    have hpumped : m.ends = true →
        (State.pump { (s.admitted req l).forward toUpper b s.taken.length m l with copyBytes := 0 }
          l.flushes).Answered := by
      intro hend
      refine pump_answered _ ?_ (href.adds (n := 0) { hadds with })
      change ((s.admitted req l).forward toUpper b s.taken.length m l).answers + 1 =
        ((s.admitted req l).forward toUpper b s.taken.length m l).ends
      rw [hadds.answers, hadds.ends, hcount, hends, hend]
      rfl
    cases m with
    | flush => cases hb
    | copyData size => cases hb
    | copyDone => cases hb
    | copyFail => cases hb
    | sync => exact hpumped rfl
    | query text => exact hpumped rfl
    | _ => exact hbuffered rfl

lemma readPump_spec (b : Backend) (r : Reply) (recycles : Bool) :
    Adds (if (Response.reply r).isReady then 1 else 0) s (s.readPump b r recycles) ∧ (s.readPump b r recycles).phase =
        if (Response.reply r).isReady || takesOver r then .ready else s.phase := by
  obtain ⟨hphase, hadds⟩ := deliver_spec
    (s := { s with backend := some b, batchErr := s.batchErr || r == Reply.error }) r
  generalize (if (Response.reply r).isReady then 1 else 0) = n at hadds ⊢
  unfold readPump
  dsimp only
  split
  · rename_i status
    have hgive := giveBack_spec (s := { ((({ s with backend := some b, batchErr := s.batchErr || Reply.ready status == Reply.error } :
        State).deliver (.ready status)).endBatch b) with phase := Phase.ready }) recycles
    refine ⟨⟨?_, hgive.taken.trans hadds.taken, hgive.refused.trans hadds.refused⟩, hgive.phase⟩
    rw [answers, hgive.sent]
    exact hadds.answers
  · rename_i hready
    have hnot : (Response.reply r).isReady = false := by
      cases r with
      | ready status => exact absurd rfl (hready status)
      | _ => rfl
    split
    · rename_i htakes
      exact ⟨{ hadds with }, by simp [htakes]⟩
    · rename_i htakes
      exact ⟨{ hadds with }, by simp [htakes, hnot, hphase]⟩

lemma readPump_answered (h : s.Answered) (hphase : s.phase = .pumping) (b : Backend) {r : Reply}
    (ho : takesOver r = false) (recycles : Bool) : (s.readPump b r recycles).Answered := by
  obtain ⟨hadds, hphase'⟩ := readPump_spec (s := s) b r recycles
  have hcount := h.pumping hphase
  cases hr : (Response.reply r).isReady with
  | true =>
    rw [hr] at hadds
    exact .of_ready hadds (by simp [hphase', hr]) hcount h.refused
  | false =>
    rw [hr] at hadds
    exact .of_pumping hadds (by simp [hphase', hr, ho, hphase]) hcount h.refused

end State

variable {sql : Dialect} {toUpper : String → String}

lemma step_answered {s : State} {e : Event} (h : s.Answered) (hb : e.batched = true)
    (ho : Orderly sql s e) : (step sql toUpper s e).Answered := by
  cases e with
  | request req l =>
    by_cases hphase : s.phase = .ready
    · rw [step, if_pos hphase]
      cases hm : req.message with
      | none => simp [Event.batched, hm] at hb
      | some m =>
        apply State.handle_answered h hphase hm
        · simpa [Event.batched, hm] using hb
        · exact ho hphase
    · rw [step, if_neg hphase]
      exact h
  | reads recycles =>
    change (s.read sql recycles).Answered
    unfold State.read
    split
    · exact h
    · rename_i b hback
      split
      · exact h
      · rename_i r b' hreceive
        split
        · rename_i hphase
          exact State.readPump_answered h hphase b' (ho hphase b r b' hback hreceive) recycles
        · rename_i hphase
          have hcount := h.count
          rw [hphase] at hcount
          exact hcount.elim
        · exact h
  | lost =>
    rw [step]
    split
    · rename_i hpumps
      have hpumping : s.phase = .pumping := by
        have hcount := h.count
        cases hp : s.phase with
        | pumping => rfl
        | flushing =>
          rw [hp] at hcount
          exact hcount.elim
        | ready => simp [hp, Phase.pumps] at hpumps
        | ended => simp [hp, Phase.pumps] at hpumps
      exact .of_ready s.backendLost_adds rfl (h.pumping hpumping) h.refused
    · exact h
  | gone => exact ⟨trivial, h.refused⟩
  | reserve reserved => exact ⟨h.count, h.refused⟩

lemma State.Answered.good {s : State} (h : s.Answered) : s.OneAnswerEach ∧ s.NothingAfterRefusal := by
  refine ⟨h.ready, ?_⟩
  intro i hi j _ hlt
  obtain ⟨req, htaken, hends⟩ := h.refused i hi
  exact ⟨i, req, Nat.le_refl i, hlt, htaken, hends⟩

/-- The count is off by one as soon as an event is out of order. -/
lemma step_disorderly {s : State} {e : Event} (h : s.Answered) (hb : e.batched = true)
    (ho : ¬ Orderly sql s e) : ¬ (step sql toUpper s e).OneAnswerEach := by
  intro hone
  cases e with
  | request req l =>
    simp only [Orderly, Classical.not_imp] at ho
    obtain ⟨hphase, href, hend⟩ := ho
    obtain ⟨e, hr⟩ := Option.isSome_iff_exists.mp href
    rw [step, if_pos hphase, State.handle_refused hr] at hone
    have hcount : (s.admitted req l).answers = s.ends := by
      rw [State.answers, (s.admitted_frame req l).sent]
      exact h.ready hphase
    have hends := s.admitted_ends req l
    rw [if_neg hend] at hends
    have hfinal := hone rfl
    rw [(State.refuse_adds e).answers, (State.refuse_adds e).ends] at hfinal
    change (s.admitted req l).answers + 1 = (s.admitted req l).ends at hfinal
    omega
  | reads recycles =>
    simp only [Orderly, Classical.not_imp] at ho
    obtain ⟨hphase, hall⟩ := ho
    simp only [not_forall] at hall
    obtain ⟨b, r, b', hback, hreceive, htakes⟩ := hall
    have htakes : State.takesOver r = true := by simpa using htakes
    have hnot : (Response.reply r).isReady = false := by
      cases r with
      | ready status => cases htakes
      | _ => rfl
    have hstep : step sql toUpper s (.reads recycles) = s.readPump b' r recycles := by
      change s.read sql recycles = _
      simp only [State.read, hback, hreceive, hphase]
    rw [hstep] at hone
    obtain ⟨hadds, hphase'⟩ := State.readPump_spec (s := s) b' r recycles
    have hfinal := hone (by simp [hphase', htakes])
    have hpumping := h.pumping hphase
    rw [hadds.answers, hadds.ends, hnot] at hfinal
    change s.answers + 0 = s.ends at hfinal
    omega
  | _ => exact ho trivial

lemma start_answered (reserved : Bool) : (State.start reserved).Answered := ⟨rfl, by intro i hi; cases hi⟩

/-- On a stream of batches each Sync and simple query has exactly one ReadyForQuery, and nothing
that follows a refused message in its batch reaches PostgreSQL, exactly when every request that is
refused is a Sync or a simple query and no batch runs into a COPY. -/
theorem one_answer_per_batch_iff (sql : Dialect) (toUpper : String → String) (reserved : Bool)
    (events : List Event) (hbatched : ∀ e ∈ events, e.batched = true) :
    (∀ earlier, earlier <+: events → (run sql toUpper (State.start reserved) earlier).OneAnswerEach ∧
        (run sql toUpper (State.start reserved) earlier).NothingAfterRefusal) ↔
    ∀ earlier e, earlier ++ [e] <+: events →
      Orderly sql (run sql toUpper (State.start reserved) earlier) e := by
  apply Runs.good_throughout_iff (step sql toUpper) State.Answered
    (fun s => s.OneAnswerEach ∧ s.NothingAfterRefusal) (fun e => e.batched = true) (Orderly sql)
  · intro s e h hb ho
    exact step_answered h hb ho
  · intro s h
    exact h.good
  · intro s e h hb ho hgood
    exact step_disorderly h hb ho hgood.1
  · exact start_answered reserved
  · exact hbatched

/-! ## A batch that is refused half-way -/

def view : View := ⟨false, true, 1, 1, false⟩

/-- A request of the given generation that meets nothing unusual. -/
def request (generation : Nat) (m : Frontend) : Event :=
  .request ⟨some ⟨generation, 1⟩, some m⟩
    ⟨view, false, .dialled, false, view, Effect.plain, Effect.plain, true⟩

theorem one_answer_for_a_sync : (run ⟨fun _ => false, fun _ => false⟩ id (State.start false)
      [request 1 .sync, .reads true]).OneAnswerEach := by
  have h := one_answer_per_batch_iff ⟨fun _ => false, fun _ => false⟩ id false
    [request 1 .sync, .reads true] (by decide)
  refine (h.mpr ?_ _ (List.prefix_refl _)).1
  intro earlier e hpre
  have hcases : earlier = [] ∧ e = request 1 .sync ∨
      earlier = [request 1 .sync] ∧ e = .reads true := by
    rcases earlier with _ | ⟨e₁, _ | ⟨e₂, rest⟩⟩
    · simp_all
    · simp_all
    · have := hpre.length_le
      simp at this
  rcases hcases with ⟨rfl, rfl⟩ | ⟨rfl, rfl⟩
  · intro _ href
    cases href
  · intro _ b r b' hb hreceive
    cases hb
    cases hreceive
    rfl

/-- The statement `s` is parsed and run. Then a Parse that would replace it is refused for a stale
generation and the Bind, the Execute and the Sync of its batch are admitted: they run the old
statement, and the two batches have had three ReadyForQuery. -/
theorem batch_runs_on_after_refusal :
    let s := run ⟨fun _ => false, fun _ => false⟩ id (State.start true)
      [request 1 (.parse "s" "SELECT 1" []), request 1 (.bind "" "s"), request 1 (.execute "" 0),
        request 1 .sync, .reads true, .reads true, .reads true, .reads true,
        request 0 (.parse "s" "SELECT 2" []), request 1 (.bind "" "s"), request 1 (.execute "" 0),
        request 1 .sync, .reads true, .reads true, .reads true]
    s.phase = .ready ∧ s.answers = 3 ∧ s.ends = 2 ∧ s.refused = [4] ∧ s.written = [0, 1, 2, 3, 5, 6, 7] ∧
      s.sent.drop 6 = [.reply .bindComplete, .reply .commandComplete, .reply (.ready .idle)] := by
  decide +kernel

end PgShard.Relay
