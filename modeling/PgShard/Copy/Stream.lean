import PgShard.Copy.Split

/-!
# The client's end of a COPY

What the router reads from the client while a COPY FROM STDIN is in progress, and the relay that
passes it on to one shard.
-/

namespace PgShard.Copy

open Key

/-- A message of the client. `other` is any message a COPY ignores, Flush and Sync among them. -/
inductive Message
  | copyData (data : Bytes)
  | copyDone
  | copyFail
  | terminate
  | other
  deriving DecidableEq, Repr

/-- Why a read of the client's connection failed: `eof` is the bare `io.EOF`, `lost` everything else
(an unexpected end, a timeout, a deadline). -/
inductive RecvError
  | eof
  | lost
  deriving DecidableEq, Repr

/-- What one read of the client's connection gives. A failed read says whether the statement was
cancelled by then. -/
inductive Receive
  | message (m : Message)
  | error (e : RecvError) (cancelled : Bool)
  deriving DecidableEq, Repr

inductive StreamError
  | eof
  | copyFail
  | lost
  deriving DecidableEq, Repr

def RecvError.reported : RecvError → StreamError
  | .eof => .eof
  | .lost => .lost

structure CopyInStream where
  queue : List Receive
  done : Bool := false
  deriving DecidableEq, Repr

/-- The loop of `copyInStream.Next` over the reads still to come; nothing is returned while the read
blocks. -/
def receive : List Receive → Option (Except StreamError Bytes × CopyInStream)
  | [] => none
  | .error e cancelled :: rest =>
    if cancelled then some (.error .copyFail, { queue := rest, done := true })
    else some (.error e.reported, { queue := rest, done := true })
  | .message (.copyData data) :: rest => some (.ok data, { queue := rest })
  | .message .copyDone :: rest => some (.error .eof, { queue := rest, done := true })
  | .message .copyFail :: rest => some (.error .copyFail, { queue := rest, done := true })
  | .message .terminate :: rest => some (.error .eof, { queue := rest, done := true })
  | .message .other :: rest => receive rest

def CopyInStream.next (s : CopyInStream) : Option (Except StreamError Bytes × CopyInStream) :=
  if s.done then some (.error .eof, s) else receive s.queue

/-- How the client's part of a COPY ends. -/
inductive Ending
  | done
  | fail
  | terminate
  | cancelled
  | lost (e : RecvError)
  deriving DecidableEq, Repr

/-- The first thing the client does that ends the COPY, if it did one. -/
def ending : List Receive → Option Ending
  | [] => none
  | .error e cancelled :: _ => if cancelled then some .cancelled else some (.lost e)
  | .message (.copyData _) :: rest => ending rest
  | .message .copyDone :: _ => some .done
  | .message .copyFail :: _ => some .fail
  | .message .terminate :: _ => some .terminate
  | .message .other :: rest => ending rest

/-- The client finished the COPY. -/
def Finished (client : List Receive) : Prop := ending client = some .done

/-- The error value by which the relays learn of an ending. -/
def Ending.reported : Ending → StreamError
  | .done => .eof
  | .fail => .copyFail
  | .terminate => .eof
  | .cancelled => .copyFail
  | .lost e => e.reported

lemma receive_ending (queue : List Receive) : match receive queue with
    | none => ending queue = none
    | some (.ok _, s) => s.done = false ∧ ending s.queue = ending queue ∧ s.queue.length < queue.length
    | some (.error e, _) => ∃ how, ending queue = some how ∧ how.reported = e := by
  induction queue with
  | nil => rfl
  | cons r rest ih =>
    cases r with
    | error e cancelled =>
      cases cancelled with
      | false => exact ⟨.lost e, rfl, rfl⟩
      | true => exact ⟨.cancelled, rfl, rfl⟩
    | message m =>
      cases m with
      | copyData data => exact ⟨rfl, rfl, Nat.lt_succ_self _⟩
      | copyDone => exact ⟨.done, rfl, rfl⟩
      | copyFail => exact ⟨.fail, rfl, rfl⟩
      | terminate => exact ⟨.terminate, rfl, rfl⟩
      | other =>
        simp only [receive, ending]
        cases hr : receive rest with
        | none => simpa [hr] using ih
        | some found =>
          obtain ⟨res, s⟩ := found
          rw [hr] at ih
          cases res with
          | error e => exact ih
          | ok data =>
            obtain ⟨hd, he, hl⟩ := ih
            exact ⟨hd, he, Nat.lt_succ_of_lt hl⟩

variable {s : CopyInStream} {trace : List Sent} {shard : Nat}

/-- A chunk of the stream leaves the same ending to come. -/
lemma next_data {s' : CopyInStream} {data : Bytes} (h : s.next = some (.ok data, s')) :
    s.done = false ∧ s'.done = false ∧ ending s'.queue = ending s.queue ∧
      s'.queue.length < s.queue.length := by
  unfold CopyInStream.next at h
  by_cases hd : s.done
  · simp [hd] at h
  · have he := receive_ending s.queue
    rw [if_neg hd] at h
    rw [h] at he
    exact ⟨by simpa using hd, he⟩

lemma next_error {s' : CopyInStream} {e : StreamError} (hd : s.done = false)
    (h : s.next = some (.error e, s')) : ∃ how, ending s.queue = some how ∧ how.reported = e := by
  have he := receive_ending s.queue
  have h : receive s.queue = some (.error e, s') := by simpa [CopyInStream.next, hd] using h
  rwa [h] at he

lemma next_blocked (h : s.next = none) : ending s.queue = none := by
  have he := receive_ending s.queue
  have h : receive s.queue = none := by
    unfold CopyInStream.next at h
    split at h
    · cases h
    · exact h
  rwa [h] at he

inductive Request
  | copyData (data : Bytes)
  | copyDone
  | copyFail (message : String)
  deriving DecidableEq, Repr

/-- A request the router put on a shard's stream, and whether the stream took it. -/
structure Sent where
  shard : Nat
  request : Request
  delivered : Bool
  deriving DecidableEq, Repr

/-- Whether a stream takes the next request, given everything sent before it. -/
abbrev Wire := List Sent → Nat → Request → Bool

def post (wire : Wire) (trace : List Sent) (shard : Nat) (request : Request) : List Sent × Bool :=
  (trace ++ [{ shard := shard, request := request, delivered := wire trace shard request }], wire trace shard request)

inductive Outcome
  | waiting
  | ok
  | failed
  deriving DecidableEq, Repr

/-- The loop of `Executor.copyIn`: the client's chunks go to the shard until the client ends the
transfer. -/
def relay (wire : Wire) (shard : Nat) (trace : List Sent) (s : CopyInStream) : List Sent × Outcome :=
  match h : s.next with
  | none => (trace, .waiting)
  | some (.ok data, s') =>
    have := (next_data h).2.2.2
    let (trace, ok) := post wire trace shard (.copyData data)
    if ok then relay wire shard trace s' else (trace, .failed)
  | some (.error .copyFail, _) =>
    let (trace, ok) := post wire trace shard (.copyFail "COPY terminated by client")
    (trace, if ok then .ok else .failed)
  | some (.error .eof, _) =>
    let (trace, ok) := post wire trace shard .copyDone
    (trace, if ok then .ok else .failed)
  | some (.error .lost, _) =>
    let (trace, _) := post wire trace shard (.copyFail "client connection lost")
    (trace, .failed)
termination_by s.queue.length

/-- The source's `Executor.copyIn`; `told` says whether the client could be told to send rows. -/
def copyIn (wire : Wire) (shard : Nat) (told : Bool) (client : List Receive) : List Sent × Outcome :=
  if told then relay wire shard [] { queue := client } else ([], .failed)

/-! ### What a shard makes of it -/

/-- The COPY ended successfully on the shard. -/
def Succeeded (trace : List Sent) (shard : Nat) : Prop :=
  { shard := shard, request := .copyDone, delivered := true } ∈ trace

/-- The COPY failed on the shard: it was told so, or its stream broke under the COPY. -/
def Failed (trace : List Sent) (shard : Nat) : Prop :=
  ∃ s ∈ trace, s.shard = shard ∧ ((∃ m, s.request = .copyFail m) ∨ s.delivered = false)

/-- Only data so far, all of it taken. -/
def Quiet (trace : List Sent) : Prop := ∀ s ∈ trace, s.delivered = true ∧ ∃ data, s.request = .copyData data

lemma Quiet.not_succeeded (h : Quiet trace) (shard : Nat) : ¬Succeeded trace shard := by
  intro hs
  obtain ⟨_, data, hdata⟩ := h _ hs
  cases hdata

lemma Quiet.nil : Quiet [] := by
  intro s hs
  cases hs

lemma Quiet.data {data : Bytes} (h : Quiet trace) :
    Quiet (trace ++ [{ shard := shard, request := .copyData data, delivered := true }]) := by
  intro s hs
  rcases List.mem_append.mp hs with hs | hs
  · exact h s hs
  · rw [List.mem_singleton.mp hs]
    exact ⟨rfl, data, rfl⟩

lemma Quiet.succeeded_append {s : Sent} (h : Quiet trace) (hs : Succeeded (trace ++ [s]) shard) :
    s.request = .copyDone := by
  rcases List.mem_append.mp hs with hs | hs
  · exact absurd hs (h.not_succeeded shard)
  · rw [← List.mem_singleton.mp hs]

lemma failed_last (trace : List Sent) (s : Sent)
    (h : (∃ m, s.request = .copyFail m) ∨ s.delivered = false) : Failed (trace ++ [s]) s.shard :=
  ⟨s, by simp, rfl, h⟩

/-- The relay ends the COPY the way the client did, unless an ending that is not CopyDone reaches it
as the end of the stream. -/
lemma relay_sound (wire : Wire) (shard : Nat) (hd : s.done = false) (hq : Quiet trace)
    (hend : ∀ how, ending s.queue = some how → how.reported = .eof → how = .done) :
    (∀ sh, Succeeded (relay wire shard trace s).1 sh → Finished s.queue) ∧
      ((relay wire shard trace s).2 ≠ .waiting → ¬Finished s.queue →
        Failed (relay wire shard trace s).1 shard) := by
  fun_induction relay wire shard trace s with
  | case1 =>
    refine ⟨?_, ?_⟩
    · intro sh hs
      exact absurd hs (hq.not_succeeded sh)
    · intro hw
      exact absurd rfl hw
  | case2 trace s data s' hnext _ trace' hpost ih =>
    obtain ⟨_, hd', hending, _⟩ := next_data hnext
    simp only [post, Prod.mk.injEq] at hpost
    obtain ⟨rfl, hwire⟩ := hpost
    have := ih hd' (by rw [hwire]; exact hq.data) (by rwa [hending])
    unfold Finished at this ⊢
    rwa [hending] at this
  | case3 trace s data s' hnext _ trace' ok hpost hok =>
    simp only [post, Prod.mk.injEq] at hpost
    obtain ⟨rfl, hwire⟩ := hpost
    refine ⟨?_, ?_⟩
    · intro sh hs
      cases hq.succeeded_append hs
    · intro _ _
      exact failed_last _ _ (.inr (by simpa [hwire] using hok))
  | case4 trace s s' hnext trace' ok hpost =>
    simp only [post, Prod.mk.injEq] at hpost
    obtain ⟨rfl, _⟩ := hpost
    refine ⟨?_, ?_⟩
    · intro sh hs
      cases hq.succeeded_append hs
    · intro _ _
      exact failed_last _ _ (.inl ⟨_, rfl⟩)
  | case5 trace s s' hnext trace' ok hpost =>
    obtain ⟨how, hhow, heof⟩ := next_error hd hnext
    have hfinished : Finished s.queue := by
      rw [Finished, hhow, hend how hhow heof]
    exact ⟨fun _ _ => hfinished, fun _ hn => absurd hfinished hn⟩
  | case6 trace s s' hnext trace' ok hpost =>
    simp only [post, Prod.mk.injEq] at hpost
    obtain ⟨rfl, _⟩ := hpost
    refine ⟨?_, ?_⟩
    · intro sh hs
      cases hq.succeeded_append hs
    · intro _ _
      exact failed_last _ _ (.inl ⟨_, rfl⟩)

/-- On streams that take everything, an ending reported as the end of the stream ends the COPY
successfully. -/
lemma relay_succeeds (hd : s.done = false) {how : Ending} (hend : ending s.queue = some how)
    (heof : how.reported = .eof) : Succeeded (relay (fun _ _ _ => true) shard trace s).1 shard := by
  fun_induction relay (fun _ _ _ => true) shard trace s with
  | case1 trace s hnext =>
    rw [next_blocked hnext] at hend
    cases hend
  | case2 trace s data s' hnext _ trace' hpost ih =>
    obtain ⟨_, hd', hending, _⟩ := next_data hnext
    exact ih hd' (by rwa [hending])
  | case3 trace s data s' hnext _ trace' ok hpost hok =>
    simp only [post, Prod.mk.injEq] at hpost
    exact absurd hpost.2.symm hok
  | case5 trace s s' hnext trace' ok hpost =>
    simp only [post, Prod.mk.injEq] at hpost
    obtain ⟨rfl, _⟩ := hpost
    simp [Succeeded]
  | case4 trace s s' hnext trace' ok hpost =>
    obtain ⟨how', hhow, hrep⟩ := next_error hd hnext
    rw [hend] at hhow
    cases hhow
    rw [heof] at hrep
    cases hrep
  | case6 trace s s' hnext trace' ok hpost =>
    obtain ⟨how', hhow, hrep⟩ := next_error hd hnext
    rw [hend] at hhow
    cases hhow
    rw [heof] at hrep
    cases hrep

end PgShard.Copy
