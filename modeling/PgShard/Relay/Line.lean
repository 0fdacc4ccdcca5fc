import PgShard.Relay.Answers

/-!
# A backend's line outside COPY

What is on its way between the pooler and PostgreSQL when no COPY takes the stream over, told by the
replies still to come: every message of a batch is answered by some chatter and one last reply,
which either ends the message or is the error after which the rest is skipped; and the
ReadyForQuery a Sync or a simple query asks for is the last reply of all.
-/

namespace PgShard.Relay

open Wire

/-- The messages PostgreSQL answers with one terminating reply. -/
def Frontend.owes : Frontend → Bool
  | .parse .. => true
  | .bind .. => true
  | .describeStatement _ => true
  | .describePortal _ => true
  | .execute .. => true
  | .closeStatement _ => true
  | .closePortal _ => true
  | _ => false

def Reply.isChatter : Reply → Bool
  | .chatter _ => true
  | _ => false

def Reply.isReady : Reply → Bool
  | .ready _ => true
  | _ => false

/-- The reply neither ends the pump nor hands the stream over. -/
def Reply.goesOn (r : Reply) : Bool := !r.isReady && !State.takesOver r

/-- No COPY begins with the message, and it belongs to none. -/
def copyless (m : Frontend × Effect) : Bool :=
  match m.1 with
  | .execute .. => m.2.ending != .copyIn && m.2.ending != .copyOut
  | .query _ => m.2.ending != .copyIn
  | .copyData _ => false
  | .copyDone => false
  | .copyFail => false
  | _ => true

/-- The replies to come for what has been written. -/
def Line.coming (sql : Dialect) (line : Line) : List Reply := line.stream (Session.process sql)

/-- The session once PostgreSQL has taken up what has been written. -/
def Line.session (sql : Dialect) (line : Line) : Session := line.after (Session.process sql)

lemma chat_chatter (e : Effect) : ∀ r ∈ Session.chat e, r.isChatter = true := by
  intro r hr
  obtain ⟨c, -, rfl⟩ := List.mem_map.mp hr
  rfl

/-- What PostgreSQL answers to one message of a batch. -/
structure Answer (s : Session) (out : List Reply) : Prop where
  copying : s.copying = none
  last : ∃ chat last, out = chat ++ [last] ∧ (∀ r ∈ chat, r.isChatter = true) ∧ last.goesOn = true ∧
    (State.terminatesMessage last = true ∧ s.skipping = false ∨ last = .error ∧ s.skipping = true)

variable {s : Session} {m : Frontend × Effect}

lemma Answer.done (hc : s.copying = none) (hs : s.skipping = false) (e : Effect) (last : Reply)
    (hg : last.goesOn = true) (ht : State.terminatesMessage last = true) : Answer s (Session.chat e ++ [last]) :=
  ⟨hc, _, last, rfl, chat_chatter e, hg, .inl ⟨ht, hs⟩⟩

lemma Answer.failed (hc : s.copying = none) (e : Effect) : Answer (s.fail e).1 (s.fail e).2 :=
  ⟨hc, _, .error, rfl, chat_chatter e, rfl, .inr ⟨rfl, rfl⟩⟩

lemma Answer.unless {s' : Session} {out : List Reply} {c : Bool} {e : Effect} (hc : s.copying = none)
    (h : Answer s' out) : Answer (if c then s.fail e else (s', out)).1 (if c then s.fail e else (s', out)).2 := by
  split
  · exact Answer.failed hc e
  · exact h

lemma Answer.goesOn {out : List Reply} (h : Answer s out) : ∀ r ∈ out, r.goesOn = true := by
  obtain ⟨chat, last, rfl, hchat, hlast, -⟩ := h.last
  intro r hr
  rcases List.mem_append.mp hr with hr | hr
  · have hr' := hchat r hr
    cases r <;> first | rfl | cases hr'
  · rwa [List.mem_singleton.mp hr]

lemma chatter_counts {chat : List Reply} (h : ∀ r ∈ chat, r.isChatter = true) :
    Reply.error ∉ chat ∧ chat.countP State.terminatesMessage = 0 := by
  constructor
  · intro hmem
    cases h _ hmem
  · rw [List.countP_eq_zero]
    intro r hr
    have hr' := h r hr
    cases r <;> simp_all [Reply.isChatter, State.terminatesMessage]

/-- An answer ends its message, or it is an error. -/
lemma Answer.counts {out : List Reply} (h : Answer s out) :
    s.skipping = false ∧ Reply.error ∉ out ∧ out.countP State.terminatesMessage = 1 ∨
      s.skipping = true ∧ ∃ chat, out = chat ++ [.error] ∧ Reply.error ∉ chat ∧
        chat.countP State.terminatesMessage = 0 := by
  obtain ⟨chat, last, rfl, hchat, -, ⟨ht, hs⟩ | ⟨rfl, hs⟩⟩ := h.last
  · obtain ⟨herr, hnone⟩ := chatter_counts hchat
    have hlast : Reply.error ≠ last := by
      rintro rfl
      cases ht
    exact .inl ⟨hs, by simp [herr, hlast], by simp [List.countP_append, hnone, ht]⟩
  · exact .inr ⟨hs, chat, rfl, chatter_counts hchat⟩

lemma create_line (s : Session) (name : String) (p : Prepared) :
    (s.create name p).copying = s.copying ∧ (s.create name p).skipping = s.skipping := by
  unfold Session.create
  split <;> exact ⟨rfl, rfl⟩

lemma execute_answer (sql : Dialect) (hc : s.copying = none) (hs : s.skipping = false)
    (text : String) {e : Effect} (he : (e.ending != .copyIn && e.ending != .copyOut) = true) :
    Answer (s.execute sql text e).1 (s.execute sql text e).2 := by
  have hruns : (s.runs sql text e).copying = none ∧ (s.runs sql text e).skipping = false := ⟨hc, hs⟩
  unfold Session.execute
  dsimp only
  split
  · exact Answer.failed hruns.1 e
  · cases hending : e.ending with
    | complete | empty | suspended => exact Answer.done hruns.1 hruns.2 e _ rfl rfl
    | copyOut | copyIn => simp [hending] at he

lemma process_owes (sql : Dialect) (hc : s.copying = none) (hs : s.skipping = false)
    (ho : m.1.owes = true) (he : copyless m = true) : Answer (s.process sql m).1 (s.process sql m).2 := by
  obtain ⟨m, e⟩ := m
  have hdescribed : Answer s (Session.chat e ++ [if e.rows then .rowDescription else .noData]) :=
    Answer.done hc hs e _ (by split <;> rfl) (by split <;> rfl)
  unfold Session.process
  rw [hc]
  dsimp only
  rw [if_neg (by simp [hs])]
  cases m with
  | parse name text oids =>
    obtain ⟨hcopy, hskip⟩ := create_line s name ⟨text, oids⟩
    exact .unless hc (Answer.done (hcopy.trans hc) (hskip.trans hs) e _ rfl rfl)
  | bind portal statement =>
    unfold Session.processReady
    dsimp only
    split
    · exact Answer.failed hc e
    · exact .unless hc (Answer.done (by exact hc) (by exact hs) e _ rfl rfl)
  | describeStatement name | describePortal name => exact .unless hc hdescribed
  | execute portal maxRows =>
    unfold Session.processReady
    dsimp only
    split
    · exact Answer.failed hc e
    · exact execute_answer sql hc hs _ he
  | closeStatement name | closePortal name => exact Answer.done (by exact hc) (by exact hs) e _ rfl rfl
  | _ => cases ho

lemma process_flush (sql : Dialect) (hc : s.copying = none) (e : Effect) : s.process sql (.flush, e) = (s, []) := by
  unfold Session.process
  rw [hc]
  dsimp only
  split <;> rfl

lemma process_skipped (sql : Dialect) (hc : s.copying = none) (hs : s.skipping = true)
    (hm : m.1 ≠ .sync) : s.process sql m = (s, []) := by
  unfold Session.process
  rw [hc]
  dsimp only
  rw [if_pos hs, if_neg hm]

/-- A message that does not end its batch draws no ReadyForQuery. -/
lemma process_inner (sql : Dialect) (hc : s.copying = none) (hm : copyless m = true) (he : m.1.ends = false) :
    (s.process sql m).1.copying = none ∧ ∀ r ∈ (s.process sql m).2, r.goesOn = true := by
  have howes : m.1.owes = true → (s.process sql m).1.copying = none ∧
      ∀ r ∈ (s.process sql m).2, r.goesOn = true := by
    intro ho
    cases hs : s.skipping with
    | true =>
      rw [process_skipped sql hc hs (by rintro heq; simp [heq, Frontend.owes] at ho)]
      exact ⟨hc, nofun⟩
    | false =>
      have h := process_owes sql hc hs ho hm
      exact ⟨h.copying, h.goesOn⟩
  obtain ⟨m, e⟩ := m
  cases m with
  | flush =>
    rw [process_flush sql hc e]
    exact ⟨hc, nofun⟩
  | sync | query _ => cases he
  | copyData _ | copyDone | copyFail => cases hm
  | _ => exact howes rfl

/-- The replies to a message that ends a batch finish with its ReadyForQuery, unless it is skipped. -/
lemma process_final (sql : Dialect) (hc : s.copying = none) (hm : copyless m = true) (he : m.1.ends = true) :
    s.process sql m = (s, []) ∨ (s.process sql m).1.copying = none ∧ (s.process sql m).1.skipping = false ∧
        ∃ before status, (s.process sql m).2 = before ++ [.ready status] ∧
          ∀ r ∈ before, r.goesOn = true := by
  obtain ⟨m, e⟩ := m
  have hresults : ∀ r ∈ e.results.map Result.reply, r.goesOn = true := by
    intro r hr
    obtain ⟨x, -, rfl⟩ := List.mem_map.mp hr
    cases x <;> rfl
  unfold Session.process
  rw [hc]
  dsimp only
  cases m with
  | sync =>
    right
    split <;> exact ⟨rfl, rfl, [], e.status, rfl, nofun⟩
  | query text =>
    split
    · exact .inl rfl
    · right
      unfold Session.processReady Session.query
      dsimp only
      split
      · refine ⟨rfl, rfl, e.results.map Result.reply ++ [.error], e.status, by simp, ?_⟩
        intro r hr
        rcases List.mem_append.mp hr with hr | hr
        · exact hresults r hr
        · rw [List.mem_singleton.mp hr]
          rfl
      · split
        · rename_i hending
          simp [copyless, hending] at hm
        · exact ⟨rfl, rfl, e.results.map Result.reply, e.status, rfl, hresults⟩
  | _ => cases he

/-- No ReadyForQuery has been asked for. -/
structure Open (sql : Dialect) (line : Line) : Prop where
  copying : (Line.session sql line).copying = none
  goesOn : ∀ r ∈ Line.coming sql line, r.goesOn = true

/-- ReadyForQuery has been asked for: it is the last reply, unless PostgreSQL skips. -/
structure Closing (sql : Dialect) (line : Line) : Prop where
  copying : (Line.session sql line).copying = none
  last : (∀ r ∈ Line.coming sql line, r.goesOn = true) ∨
    (Line.session sql line).skipping = false ∧ line.Answers (Session.process sql) ∧
      ∃ before status, Line.coming sql line = before ++ [.ready status] ∧ ∀ r ∈ before, r.goesOn = true

/-- Nothing is on its way. -/
structure Quiet (line : Line) : Prop where
  copying : line.state.copying = none
  skipping : line.state.skipping = false
  queue : line.queue = []
  out : line.out = []

variable {sql : Dialect} {line line' : Line} {r : Reply}

lemma Quiet.session (h : Quiet line) (sql : Dialect) : Line.session sql line = line.state := by
  rw [Line.session, Pipe.after, h.queue]
  rfl

lemma Quiet.coming (h : Quiet line) (sql : Dialect) : Line.coming sql line = [] := by
  rw [Line.coming, Pipe.stream, h.queue, h.out]
  rfl

lemma Quiet.opens (h : Quiet line) : Open sql line :=
  ⟨(congrArg Session.copying (h.session sql)).trans h.copying, by simp [h.coming sql]⟩

lemma coming_put (m : Frontend × Effect) : Line.coming sql (line.put m) =
    Line.coming sql line ++ (Session.process sql (Line.session sql line) m).2 :=
  Pipe.stream_put _ line m

lemma session_put (m : Frontend × Effect) :
    Line.session sql (line.put m) = (Session.process sql (Line.session sql line) m).1 :=
  Pipe.after_put _ line m

lemma Open.put (h : Open sql line) (hm : copyless m = true) (he : m.1.ends = false) : Open sql (line.put m) := by
  obtain ⟨hc, hout⟩ := process_inner sql h.copying hm he
  constructor
  · rw [session_put]
    exact hc
  · rw [coming_put]
    exact List.forall_mem_append.mpr ⟨h.goesOn, hout⟩

lemma Open.put_final (h : Open sql line) (hm : copyless m = true) (he : m.1.ends = true) :
    Closing sql (line.put m) := by
  rcases process_final sql h.copying hm he with hsilent | ⟨hc, hs, before, status, hout, hbefore⟩
  · constructor
    · rw [session_put, hsilent]
      exact h.copying
    · rw [coming_put, hsilent, List.append_nil]
      exact .inl h.goesOn
  · constructor
    · rw [session_put]
      exact hc
    · have hanswers : (line.put m).Answers (Session.process sql) := by
        intro ms m' hq
        obtain ⟨rfl, hm'⟩ := List.append_inj' hq rfl
        cases hm'
        change (Session.process sql (Line.session sql line) m).2 ≠ []
        simp [hout]
      rw [session_put, coming_put, hout]
      exact .inr ⟨hs, hanswers, Line.coming sql line ++ before, status, (List.append_assoc ..).symm,
        List.forall_mem_append.mpr ⟨h.goesOn, hbefore⟩⟩

/-- PostgreSQL skips what is written, and the error has been read. -/
def Line.mute (sql : Dialect) (line : Line) : Bool := (Line.session sql line).skipping && (Line.coming sql line).isEmpty

/-- The count `n` runs out with the last reply to come, or an error comes first. -/
inductive Balanced (sql : Dialect) (line : Line) (n : Nat) : Prop where
  | flows (hs : (Line.session sql line).skipping = false) (herr : Reply.error ∉ Line.coming sql line)
      (hn : n = (Line.coming sql line).countP State.terminatesMessage)
  | fails (hs : (Line.session sql line).skipping = true) {before : List Reply}
      (hcoming : Line.coming sql line = before ++ [.error]) (herr : Reply.error ∉ before)
      (hn : before.countP State.terminatesMessage < n)

lemma Quiet.balanced (h : Quiet line) : Balanced sql line 0 :=
  .flows (by rw [h.session]; exact h.skipping) (by rw [h.coming]; nofun) (by rw [h.coming]; rfl)

lemma Balanced.of_same {n : Nat} (h : Balanced sql line n) (hcoming : Line.coming sql line' = Line.coming sql line)
    (hsession : Line.session sql line' = Line.session sql line) : Balanced sql line' n := by
  cases h with
  | flows hs herr hn => exact .flows (hsession ▸ hs) (hcoming ▸ herr) (hcoming ▸ hn)
  | fails hs heq herr hn => exact .fails (hsession ▸ hs) (hcoming.trans heq) herr hn

/-- A message that is owed an answer is counted: it is answered, or an error comes before. -/
lemma Balanced.put {n : Nat} (h : Balanced sql line n) (hopen : Open sql line)
    (hm : copyless m = true) (ho : m.1.owes = true) : Balanced sql (line.put m) (n + 1) := by
  cases h with
  | flows hs herr hn =>
    have hanswer := (process_owes sql hopen.copying hs ho hm).counts
    rw [← session_put] at hanswer
    rcases hanswer with ⟨hs', herr', hcount⟩ | ⟨hs', chat, hout, herr', hcount⟩
    · apply Balanced.flows hs'
      · rw [coming_put, List.mem_append, not_or]
        exact ⟨herr, herr'⟩
      · rw [coming_put, List.countP_append, hcount, hn]
    · apply Balanced.fails hs'
      · rw [coming_put, hout, ← List.append_assoc]
      · rw [List.mem_append, not_or]
        exact ⟨herr, herr'⟩
      · rw [List.countP_append, hcount, hn]
        omega
  | fails hs hcoming herr hn =>
    have hsync : m.1 ≠ .sync := by
      intro heq
      simp [heq, Frontend.owes] at ho
    have hskipped := process_skipped sql hopen.copying hs hsync
    have hsame : Balanced sql line (n + 1) := .fails hs hcoming herr (by omega)
    apply hsame.of_same
    · rw [coming_put, hskipped, List.append_nil]
    · rw [session_put, hskipped]

lemma receive_coming (h : line.receive (Session.process sql) = some (r, line')) :
    Line.coming sql line = r :: Line.coming sql line' ∧
      Line.session sql line' = Line.session sql line := by
  obtain ⟨hstream, hafter⟩ := Pipe.receive_eq_some _ h
  exact ⟨hstream, hafter.symm⟩

/-- A reply taken off what comes and off the count. -/
lemma Balanced.receive {n : Nat} (h : Balanced sql line n)
    (hr : line.receive (Session.process sql) = some (r, line')) : r = .error ∧ Line.mute sql line' = true ∨
      r ≠ .error ∧ Balanced sql line' (n - if State.terminatesMessage r then 1 else 0) := by
  obtain ⟨hcoming, hsession⟩ := receive_coming hr
  cases h with
  | flows hs herr hn =>
    rw [hcoming, List.mem_cons, not_or] at herr
    rw [hcoming, List.countP_cons] at hn
    exact .inr ⟨Ne.symm herr.1, .flows (hsession ▸ hs) herr.2 (by omega)⟩
  | @fails hs before heq herr hn =>
    rw [hcoming] at heq
    cases before with
    | nil =>
      simp only [List.nil_append, List.cons.injEq] at heq
      exact .inl ⟨heq.1, by simp [Line.mute, hsession, hs, heq.2]⟩
    | cons r' before =>
      simp only [List.cons_append, List.cons.injEq] at heq
      rw [List.mem_cons, not_or] at herr
      rw [List.countP_cons] at hn
      obtain ⟨rfl, heq⟩ := heq
      exact .inr ⟨Ne.symm herr.1, .fails (hsession ▸ hs) heq herr.2 (by omega)⟩

lemma Open.receive (h : Open sql line) (hr : line.receive (Session.process sql) = some (r, line')) :
    r.goesOn = true ∧ Open sql line' := by
  obtain ⟨hcoming, hsession⟩ := receive_coming hr
  have hgoes := h.goesOn
  rw [hcoming] at hgoes
  exact ⟨hgoes r List.mem_cons_self, hsession ▸ h.copying, fun r' hr' => hgoes r' (List.mem_cons_of_mem _ hr')⟩

/-- A reply on a line that asks for ReadyForQuery: after that one nothing is on its way. -/
lemma Closing.receive (h : Closing sql line) (hr : line.receive (Session.process sql) = some (r, line')) :
    r.isReady = true ∧ Quiet line' ∨ r.goesOn = true ∧ Closing sql line' := by
  obtain ⟨hcoming, hsession⟩ := receive_coming hr
  obtain ⟨hc, hlast⟩ := h
  rw [hcoming] at hlast
  rw [← hsession] at hc hlast
  rcases hlast with hgoes | ⟨hs, hanswers, before, status, heq, hbefore⟩
  · exact .inr ⟨hgoes r List.mem_cons_self, hc, .inl fun r' hr' => hgoes r' (List.mem_cons_of_mem _ hr')⟩
  · have hanswers' := hanswers.receive _ hr
    cases before with
    | nil =>
      simp only [List.nil_append, List.cons.injEq] at heq
      obtain ⟨rfl, hnil⟩ := heq
      obtain ⟨hqueue, hout⟩ := hanswers'.drained _ hnil
      have hstate : Line.session sql line' = line'.state := by
        rw [Line.session, Pipe.after, hqueue]
        rfl
      rw [hstate] at hc hs
      exact .inl ⟨rfl, hc, hs, hqueue, hout⟩
    | cons r' before =>
      simp only [List.cons_append, List.cons.injEq] at heq
      obtain ⟨rfl, heq⟩ := heq
      exact .inr ⟨hbefore r List.mem_cons_self, hc,
        .inr ⟨hs, hanswers', before, status, heq, fun r hr => hbefore r (List.mem_cons_of_mem _ hr)⟩⟩

end PgShard.Relay
