import PgShard.Copy.Stream

/-!
# COPY into a sharded table

Every shard starts the same COPY, the router splits the client's rows and sends each to the shard of
its key, and the COPY ends on every shard at once.
-/

namespace PgShard.Copy

open Key

/-- How much of one shard's rows the router holds before it sends them on. -/
def copyFlushBytes : Nat := 65536

/-- The longest row the router holds while it waits for the row's end. -/
def copyMaxLine : Nat := 67108864

inductive TxStatus
  | idle
  | inBlock
  | failed
  deriving DecidableEq, Repr

/-- A shard the COPY is meant for, in the router's transaction when the COPY starts; `stream` says
whether there is a stream to it. -/
structure Part where
  shard : Nat
  stream : Bool
  deriving DecidableEq, Repr

/-- How a shard takes the COPY: it asks for rows in the text or in another format, it answers with an
error or without asking and says where its transaction stands, or its stream breaks. -/
inductive Start
  | rows
  | binary
  | refused (failure : Refusal) (tx : TxStatus)
  | silent (tx : TxStatus)
  | lost
  deriving DecidableEq, Repr

/-- The shard stands in the COPY, or may: it asked for rows, or broke off before it answered. -/
def Start.reached : Start → Bool
  | .rows | .binary | .lost => true
  | .refused .. | .silent _ => false

/-- The transaction status the router holds for a part after the start. -/
def Start.tx : Start → TxStatus
  | .rows | .binary | .lost => .inBlock
  | .refused _ tx | .silent tx => tx

def binaryRefusal : Refusal := { code := "0A000", message := "COPY into a sharded table takes the text format only" }

/-- A request that could not be put on the stream of a shard. -/
def transportRefusal (set : String) (shard : Nat) : Refusal := { code := "08006", message := s!"shard {set}/{shard}" }

/-- The source's `Executor.startCopyOn`. -/
def startCopyOn (set : String) (p : Part) (start : Start) : Option Refusal :=
  if p.stream then
    match start with
    | .rows => none
    | .binary => some binaryRefusal
    | .refused failure _ => some failure
    | .silent _ => some
        { code := "XX000", message := s!"router: shard {set}/{p.shard} answered the COPY without asking for rows" }
    | .lost => some (transportRefusal set p.shard)
  else some (transportRefusal set p.shard)

/-- Everything around one COPY: where its key column stands, the shard of a key, the parts, how each
of them takes the start, and the streams. -/
structure Load where
  set : String
  keyColumn : Nat
  columns : Nat
  copyShard : Bytes → Except Refusal Nat
  targets : List Part
  start : Part → Start
  wire : Wire
  /-- The client could be told to send rows. -/
  told : Bool

namespace Load

variable (load : Load)

def part (shard : Nat) : Option Part := load.targets.find? (·.shard = shard)

/-- The source's `Executor.sendOn`, after which nothing is sent on a part without a stream. -/
def sendOn (trace : List Sent) (p : Part) (request : Request) : List Sent × Bool :=
  if p.stream then post load.wire trace p.shard request else (trace, false)

end Load

/-- What the relay of the rows holds. The map of pending bytes is a list in the order its shards came
up; the source goes over it in no particular order. -/
structure Relay where
  split : Splitter
  pending : List (Nat × Bytes) := []
  rows : Nat := 0
  ended : Bool := false
  trace : List Sent := []

namespace Relay

def pendingOf (r : Relay) (shard : Nat) : Bytes := (r.pending.lookup shard).getD []

def setPending (pending : List (Nat × Bytes)) (shard : Nat) (b : Bytes) : List (Nat × Bytes) :=
  if pending.any (·.1 = shard) then pending.map fun p => if p.1 = shard then (shard, b) else p
  else pending ++ [(shard, b)]

/-- The rows held for one shard go out; no failure means they went. -/
def flush (load : Load) (r : Relay) (p : Part) : Relay × Option Refusal :=
  if r.pendingOf p.shard = [] then (r, none)
  else
    let (trace, ok) := load.sendOn r.trace p (.copyData (r.pendingOf p.shard))
    ({ r with trace := trace, pending := setPending r.pending p.shard [] },
      if ok then none else some (transportRefusal load.set p.shard))

@[simp] lemma flush_frame (load : Load) (r : Relay) (p : Part) :
    (r.flush load p).1.split = r.split ∧ (r.flush load p).1.ended = r.ended := by
  unfold flush
  split <;> exact ⟨rfl, rfl⟩

/-- A row goes to what is held for its shard, and all of that goes out once it is large enough. -/
def place (load : Load) (r : Relay) (row : Row) : Relay × Option Refusal :=
  if row.keyIsNull then
    (r, some { code := "23502", message := "COPY row has a NULL shard key, which places it on no shard" })
  else
    match load.copyShard row.key with
    | .error e => (r, some e)
    | .ok shard =>
      match load.part shard with
      | none => (r, some { code := "XX000", message := s!"router: COPY row belongs to shard {shard}, which the COPY was not started on" })
      | some p =>
        let held := r.pendingOf shard ++ row.bytes
        let r := { r with pending := setPending r.pending shard held, rows := r.rows + 1 }
        if copyFlushBytes ≤ held.length then r.flush load p else (r, none)

lemma place_frame (load : Load) (r : Relay) (row : Row) :
    (r.place load row).1.split = r.split ∧ (r.place load row).1.ended = r.ended := by
  unfold place
  dsimp only
  repeat' split
  all_goals simp

/-- The closure `route` of the source: every whole row the splitter holds. -/
def route (load : Load) (r : Relay) : Relay × Option Refusal :=
  match h : r.split.next with
  | .error e => (r, some { code := "22P04", message := e.text })
  | .ok (none, split) => ({ r with split := split }, none)
  | .ok (some row, split) =>
    have := Splitter.next_shorter h
    if row.key = [] ∧ row.keyIsNull = false ∧ isMarker row.bytes = true then
      -- PostgreSQL stops reading at the end-of-data marker.
      ({ r with split := split, ended := true }, none)
    else
      match hp : place load { r with split := split } row with
      | (r', some e) => (r', some e)
      | (r', none) =>
        have : r'.split = split := by
          have hs := place_frame load { r with split := split } row
          rw [hp] at hs
          exact hs.1
        route load r'
termination_by r.split.buf.length

/-- The rows held go out, shard by shard. -/
def flushAll (load : Load) (r : Relay) : List Nat → Relay × Option Refusal
  | [] => (r, none)
  | shard :: rest =>
    match load.part shard with
    | none => r.flushAll load rest
    | some p =>
      match r.flush load p with
      | (r, some e) => (r, some e)
      | (r, none) => r.flushAll load rest

/-- One chunk of the client's. -/
def chunk (load : Load) (r : Relay) (data : Bytes) : Relay × Option Refusal :=
  if r.ended then (r, none)
  else
    match route load { r with split := r.split.write data } with
    | (r, some e) => (r, some e)
    | (r, none) =>
      if copyMaxLine < r.split.rest.length then
        (r, some { code := "54000", message := "COPY row is longer than the 64 MiB the router holds for one row" })
      else (r, none)

/-- The end of the client's stream: a last row without its line ending is still a row. -/
def close (load : Load) (r : Relay) : Relay × Option Refusal :=
  let (r, failure) := if r.ended then (r, none) else route load { r with split := r.split.finish }
  match failure with
  | some e => (r, some e)
  | none => r.flushAll load (r.pending.map Prod.fst)

end Relay

/-- How the relay of the rows stands: it waits for the client, it failed, or every row went out. -/
inductive Relayed
  | waiting
  | failed (e : Refusal)
  | rows (n : Nat)
  deriving DecidableEq, Repr

/-- The loop of `Executor.relayCopyRows`. -/
def relayCopyRows (load : Load) (r : Relay) (s : CopyInStream) : List Sent × Relayed :=
  match h : s.next with
  | none => (r.trace, .waiting)
  | some (.ok data, s') =>
    have := (next_data h).2.2.2
    match r.chunk load data with
    | (r, some e) => (r.trace, .failed e)
    | (r, none) => relayCopyRows load r s'
  | some (.error .copyFail, _) =>
    (r.trace, .failed { code := "57014", message := "COPY from stdin failed: COPY terminated by client" })
  | some (.error .eof, _) =>
    match r.close load with
    | (r, some e) => (r.trace, .failed e)
    | (r, none) => (r.trace, .rows r.rows)
  | some (.error .lost, _) => (r.trace, .failed { code := "08006", message := "client connection lost" })
termination_by s.queue.length

/-- The source's `copyFailed`, up to the end of the transaction. -/
def copyFailed (load : Load) (trace : List Sent) : List Part → List Sent
  | [] => trace
  | p :: rest =>
    if p.stream ∧ (load.start p).tx = .inBlock then
      copyFailed load (post load.wire trace p.shard (.copyFail "COPY aborted by the router")).1 rest
    else copyFailed load trace rest

/-- CopyDone on every part. -/
def copyDone (load : Load) (trace : List Sent) : List Part → List Sent
  | [] => trace
  | p :: rest => copyDone load (load.sendOn trace p .copyDone).1 rest

/-- The source's `copyShardedIn`, from the start of the COPY on the parts to its end on them. -/
def copyShardedIn (load : Load) (client : List Receive) : List Sent × Outcome :=
  if load.targets.any fun p => (startCopyOn load.set p (load.start p)).isSome then
    (copyFailed load [] load.targets, .failed)
  else if load.told then
    let split : Splitter := { keyCol := load.keyColumn, cols := load.columns }
    match relayCopyRows load { split := split } { queue := client } with
    | (trace, .waiting) => (trace, .waiting)
    | (trace, .failed _) => (copyFailed load trace load.targets, .failed)
    | (trace, .rows _) => (copyDone load trace load.targets, .ok)
  else (copyFailed load [] load.targets, .failed)

/-! ### Both relays end the COPY as the client does -/

/-- Nothing but rows was put on the streams. -/
def OnlyRows (trace : List Sent) : Prop := ∀ s ∈ trace, ∃ data, s.request = .copyData data

lemma OnlyRows.not_succeeded {trace : List Sent} (h : OnlyRows trace) (shard : Nat) : ¬Succeeded trace shard := by
  intro hs
  obtain ⟨data, hdata⟩ := h _ hs
  cases hdata

lemma OnlyRows.nil : OnlyRows [] := by
  intro s hs
  cases hs

lemma sendOn_onlyRows {load : Load} {trace : List Sent} {p : Part} {data : Bytes}
    (h : OnlyRows trace) : OnlyRows (load.sendOn trace p (.copyData data)).1 := by
  unfold Load.sendOn
  split
  · intro s hs
    rcases List.mem_append.mp hs with hs | hs
    · exact h s hs
    · rw [List.mem_singleton.mp hs]
      exact ⟨data, rfl⟩
  · exact h

namespace Relay

variable (load : Load) {r : Relay}

lemma flush_onlyRows (p : Part) (h : OnlyRows r.trace) : OnlyRows (r.flush load p).1.trace := by
  unfold flush
  split
  · exact h
  · exact sendOn_onlyRows h

lemma place_onlyRows (row : Row) (h : OnlyRows r.trace) : OnlyRows (r.place load row).1.trace := by
  unfold place
  dsimp only
  repeat' split
  all_goals first | exact h | exact flush_onlyRows load _ h

lemma route_onlyRows (h : OnlyRows r.trace) : OnlyRows (r.route load).1.trace := by
  fun_induction route load r with
  | case1 | case2 | case3 => exact h
  | case4 r row split _ _ _ r' e hp =>
    have := place_onlyRows load (r := { r with split := split }) row h
    rwa [hp] at this
  | case5 r row _ r' _ _ hp ih =>
    have := place_onlyRows load (r := { r with split := r'.split }) row h
    rw [hp] at this
    exact ih this

lemma flushAll_onlyRows (shards : List Nat) (h : OnlyRows r.trace) : OnlyRows (r.flushAll load shards).1.trace := by
  induction shards generalizing r with
  | nil => exact h
  | cons shard rest ih =>
    unfold flushAll
    split
    · exact ih h
    · rename_i p _
      have hflushed := flush_onlyRows load p h
      split
      · rename_i hf
        rwa [hf] at hflushed
      · rename_i hf
        rw [hf] at hflushed
        exact ih hflushed

lemma chunk_onlyRows (data : Bytes) (h : OnlyRows r.trace) : OnlyRows (r.chunk load data).1.trace := by
  unfold chunk
  split
  · exact h
  · have hrouted : OnlyRows (route load { r with split := r.split.write data }).1.trace :=
      route_onlyRows load (by exact h)
    split
    · rename_i hr
      rwa [hr] at hrouted
    · rename_i hr
      rw [hr] at hrouted
      split <;> exact hrouted

lemma close_onlyRows (h : OnlyRows r.trace) : OnlyRows (r.close load).1.trace := by
  unfold close
  by_cases he : r.ended
  · simp only [if_pos he]
    exact flushAll_onlyRows load _ h
  · have hrouted : OnlyRows (route load { r with split := r.split.finish }).1.trace := route_onlyRows load (by exact h)
    simp only [if_neg he]
    split
    · exact hrouted
    · exact flushAll_onlyRows load _ hrouted

end Relay

/-- While the rows are relayed nothing ends the COPY, and they are all out only once the client's
stream was reported at its end. -/
lemma relayCopyRows_rows (load : Load) {r : Relay} {s : CopyInStream} (hd : s.done = false)
    (h : OnlyRows r.trace) : OnlyRows (relayCopyRows load r s).1 ∧ ∀ n, (relayCopyRows load r s).2 = .rows n →
        ∃ how, ending s.queue = some how ∧ how.reported = .eof := by
  fun_induction relayCopyRows load r s with
  | case1 | case4 | case7 => exact ⟨h, nofun⟩
  | case2 r s data s' _ _ r' e hchunk =>
    have := Relay.chunk_onlyRows load data h
    rw [hchunk] at this
    exact ⟨this, nofun⟩
  | case3 r s data s' hnext _ r' hchunk ih =>
    have := Relay.chunk_onlyRows load data h
    rw [hchunk] at this
    obtain ⟨_, hd', hending, _⟩ := next_data hnext
    rw [← hending]
    exact ih hd' this
  | case5 r s s' _ r' e hclose =>
    have := Relay.close_onlyRows load h
    rw [hclose] at this
    exact ⟨this, nofun⟩
  | case6 r s s' hnext r' hclose =>
    have := Relay.close_onlyRows load h
    rw [hclose] at this
    exact ⟨this, fun _ _ => next_error hd hnext⟩

variable {trace : List Sent} {client : List Receive}

lemma copyFailed_mem {load : Load} {s : Sent} (parts : List Part) (h : s ∈ trace) :
    s ∈ copyFailed load trace parts := by
  induction parts generalizing trace with
  | nil => exact h
  | cons p rest ih =>
    unfold copyFailed
    split
    · exact ih (List.mem_append_left _ h)
    · exact ih h

/-- Every part with a stream and a transaction is told that the COPY failed. -/
lemma copyFailed_fails {load : Load} {parts : List Part} {p : Part} (hp : p ∈ parts)
    (hs : p.stream = true) (htx : (load.start p).tx = .inBlock) : Failed (copyFailed load trace parts) p.shard := by
  induction parts generalizing trace with
  | nil => cases hp
  | cons q rest ih =>
    unfold copyFailed
    rcases List.mem_cons.mp hp with rfl | hp
    · rw [if_pos ⟨hs, htx⟩]
      obtain ⟨s, hmem, hshard, hfail⟩ := failed_last trace
        { shard := p.shard, request := .copyFail "COPY aborted by the router",
          delivered := load.wire trace p.shard (.copyFail "COPY aborted by the router") }
        (.inl ⟨_, rfl⟩)
      exact ⟨s, copyFailed_mem rest hmem, hshard, hfail⟩
    · split <;> exact ih hp

lemma copyFailed_not_succeeded {load : Load} (parts : List Part) (h : ∀ shard, ¬Succeeded trace shard) (shard : Nat) :
    ¬Succeeded (copyFailed load trace parts) shard := by
  induction parts generalizing trace with
  | nil => exact h shard
  | cons p rest ih =>
    unfold copyFailed
    split
    · apply ih
      intro sh hs
      rcases List.mem_append.mp hs with hs | hs
      · exact h sh hs
      · cases List.mem_singleton.mp hs
    · exact ih h

/-- The shards a load reached: those whose part stands in the COPY, or may. -/
def Load.Reached (load : Load) (shard : Nat) : Prop :=
  ∃ p ∈ load.targets, p.shard = shard ∧ p.stream = true ∧ (load.start p).reached = true

/-- The COPY ends on the shards as the client ended it: successfully only if the client finished it,
and otherwise, once the router is done with it, in failure on every shard it reached. -/
def EndsAsClient (client : List Receive) (reached : Nat → Prop) (result : List Sent × Outcome) : Prop :=
  (∀ shard, Succeeded result.1 shard → Finished client) ∧
    (result.2 ≠ .waiting → ¬Finished client → ∀ shard, reached shard → Failed result.1 shard)

lemma Start.tx_of_reached {start : Start} (h : start.reached = true) : start.tx = .inBlock := by
  cases start <;> first | rfl | cases h

lemma endsAsClient_failed {load : Load} (h : OnlyRows trace) :
    EndsAsClient client load.Reached (copyFailed load trace load.targets, .failed) := by
  refine ⟨?_, ?_⟩
  · intro shard hs
    exact absurd hs (copyFailed_not_succeeded _ h.not_succeeded shard)
  · rintro _ _ shard ⟨p, hp, rfl, hstream, hreached⟩
    exact copyFailed_fails hp hstream (Start.tx_of_reached hreached)

lemma copyShardedIn_ends (load : Load) (hend : ∀ how, ending client = some how → how.reported = .eof → how = .done) :
    EndsAsClient client load.Reached (copyShardedIn load client) := by
  unfold copyShardedIn
  split
  · exact endsAsClient_failed OnlyRows.nil
  · split
    · obtain ⟨hrows, hout⟩ := relayCopyRows_rows load
        (r := { split := { keyCol := load.keyColumn, cols := load.columns } })
        (s := { queue := client }) rfl OnlyRows.nil
      dsimp only
      split <;> rename_i hrelay <;> rw [hrelay] at hrows hout
      · refine ⟨?_, ?_⟩
        · intro shard hs
          exact absurd hs (hrows.not_succeeded shard)
        · intro hw
          exact absurd rfl hw
      · exact endsAsClient_failed hrows
      · rename_i n
        obtain ⟨how, hhow, heof⟩ := hout n rfl
        have hfinished : Finished client := by rw [Finished, hhow, hend how hhow heof]
        exact ⟨fun _ _ => hfinished, fun _ hn => absurd hfinished hn⟩
    · exact endsAsClient_failed OnlyRows.nil

/-- A shard the client never heard of loses the COPY with the session, whose client is gone. -/
lemma copyIn_ends (wire : Wire) (shard : Nat) (told : Bool)
    (hend : ∀ how, ending client = some how → how.reported = .eof → how = .done) :
    EndsAsClient client (fun sh => sh = shard ∧ told = true) (copyIn wire shard told client) := by
  unfold copyIn
  cases told with
  | false =>
    refine ⟨?_, ?_⟩
    · intro sh hs
      cases hs
    · rintro _ _ sh ⟨_, htold⟩
      cases htold
  | true =>
    obtain ⟨hsucc, hfail⟩ := relay_sound wire shard (s := { queue := client }) rfl Quiet.nil hend
    refine ⟨hsucc, ?_⟩
    rintro hw hn sh ⟨rfl, _⟩
    exact hfail hw hn

/-- Both relays end every COPY as the client does exactly when the client does not end it with
Terminate and the failure of its connection is not read as a plain end of file. -/
theorem copy_ends_iff (client : List Receive) :
    ((∀ wire shard told, EndsAsClient client (fun sh => sh = shard ∧ told = true) (copyIn wire shard told client)) ∧
      ∀ load : Load, EndsAsClient client load.Reached (copyShardedIn load client)) ↔
    ending client ≠ some .terminate ∧ ending client ≠ some (.lost .eof) := by
  constructor
  · rintro ⟨hsingle, _⟩
    have hnot : ∀ how, how.reported = .eof → how ≠ .done → ending client ≠ some how := by
      intro how heof hne hend
      have hsucc : Succeeded (relay (fun _ _ _ => true) 0 [] { queue := client }).1 0 := relay_succeeds rfl hend heof
      have hfinished := (hsingle (fun _ _ _ => true) 0 true).1 0 (by simpa [copyIn] using hsucc)
      rw [Finished, hend] at hfinished
      exact hne (Option.some.inj hfinished)
    exact ⟨hnot .terminate rfl (by decide), hnot (.lost .eof) rfl (by decide)⟩
  · rintro ⟨hterm, heof⟩
    have hend : ∀ how, ending client = some how → how.reported = .eof → how = .done := by
      intro how hhow hrep
      cases how with
      | done => rfl
      | terminate => exact absurd hhow hterm
      | fail | cancelled => cases hrep
      | lost e =>
        cases e with
        | eof => exact absurd hhow heof
        | lost => cases hrep
    exact ⟨fun wire shard told => copyIn_ends wire shard told hend, fun load => copyShardedIn_ends load hend⟩

/-- A client that sends a row and disconnects with Terminate: the COPY succeeds on its shard. -/
theorem copy_kept_after_terminate : ending [.message (.copyData [53, 10]), .message .terminate] ≠ some .done ∧
      Succeeded (copyIn (fun _ _ _ => true) 0 true
        [.message (.copyData [53, 10]), .message .terminate]).1 0 := by
  refine ⟨by decide, ?_⟩
  rw [copyIn, if_pos rfl]
  have hend : ending [.message (.copyData [53, 10]), .message .terminate] = some .terminate := rfl
  exact relay_succeeds rfl hend rfl

end PgShard.Copy
