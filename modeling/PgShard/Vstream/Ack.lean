import PgShard.Vstream.Merge

/-!
# Acknowledgements

A consumer acknowledges positions inside its stream or by a call of its own. The router holds an ack to
what the stream was sent and forwards it to the shard's pooler; the pooler holds it to what its reader
delivered and reports it to PostgreSQL.
-/

namespace PgShard.Vstream

/-- What one open stream has been sent, for the calls that acknowledge it from outside. -/
structure Emitted where
  pos : Shard → Option Nat
  copying : Shard → Bool

namespace Emitted

/-- Nothing was sent, whatever position the consumer asked to start at. -/
def new (shards : List Shard) : Emitted := ⟨fun sh => if sh ∈ shards then some 0 else none, fun _ => false⟩

variable (e : Emitted)

def setCopying (sh : Shard) (copying : Bool) : Emitted :=
  if (e.pos sh).isSome then { e with copying := Function.update e.copying sh copying } else e

def isCopying (sh : Shard) : Bool := e.copying sh

def advance (sh : Shard) (lsn : Nat) : Emitted := { e with pos := Function.update e.pos sh ((e.pos sh).map (max lsn)) }

end Emitted

/-- Where the merger is with a unit. -/
inductive Stage
  | between
  | sending (u : StreamUnit) (left : List VEvent)
  | sent (u : StreamUnit)
  | marked (u : StreamUnit)
  | moved (u : StreamUnit)
  | reporting (left : List VEvent)
  | ended

/-- An open stream: the merger, what each shard's reader has pushed, and the acks on their way to the
poolers. `delivered` is where a reader has got to and `copies` whether it is still copying;
`lastSent` is the position of the last unit of the shard that was sent in full. -/
structure Live where
  name : String
  merger : Merger
  emitted : Emitted
  running : Bool := false
  stage : Stage := .between
  inputs : Shard → List StreamUnit := fun _ => []
  delivered : Shard → Nat
  copies : Shard → Bool
  snapshot : Shard → Nat := fun _ => 0
  want : Shard → Nat := fun _ => 0
  done : Shard → Nat := fun _ => 0
  lastSent : Shard → Nat := fun _ => 0

namespace Live

variable (l : Live)

def openWith (name : String) (shards : List Shard) (opts : Options) (generation fingerprint : Nat)
    (start : VPosition) (copy : Bool) : Live :=
  let states := start.copyState.reverse.map fun st => (st.shard, st)
  let fresh := shards.filter fun sh =>
    copy && positionFrom start sh = 0 && !(states.map (·.1)).contains sh
  let copying := states ++ fresh.map fun sh => (sh, ⟨sh, [], none⟩)
  { name := name
    merger :=
      { shards := shards
        opts := opts
        generation := generation
        fingerprint := fingerprint
        position := positionFrom start
        copying := copying }
    emitted := (copying.map (·.1)).foldl (fun e sh => e.setCopying sh true) (Emitted.new shards)
    delivered := positionFrom start
    copies := fun sh => (copying.map (·.1)).contains sh }

/-- The reader hands over a unit, unless it is one that was delivered before. -/
def push (u : StreamUnit) : Live :=
  if u.position && u.endLSN ≤ l.delivered u.shard then l
  else
    { l with
      inputs := Function.update l.inputs u.shard (l.inputs u.shard ++ [u])
      delivered := if u.position then Function.update l.delivered u.shard u.endLSN else l.delivered }

def setSnapshot (sh : Shard) (lsn : Nat) : Live := { l with snapshot := Function.update l.snapshot sh lsn }

/-- The copy's snapshot: a stream that started from nothing starts here. -/
def pushSnapshot (sh : Shard) (st : CopyState) (consistentPoint : Nat) : Live :=
  if l.delivered sh = 0 then
    (l.setSnapshot sh consistentPoint).push
      { shard := sh, copy := some st, position := true, endLSN := consistentPoint }
  else l.push { shard := sh, copy := some st }

def endCopy (sh : Shard) : Live := { l with copies := Function.update l.copies sh false }

def fill (sh : Shard) : Live :=
  match l.merger.heads sh, l.inputs sh with
  | none, u :: us =>
    { l with
      merger := { l.merger with heads := Function.update l.merger.heads sh (some u) }
      inputs := Function.update l.inputs sh us }
  | _, _ => l

def choose (now : Int) : Live :=
  match l.merger.choose now with
  | (some u, m) =>
    if u.err.isSome then { l with merger := m, stage := .ended }
    else { l with merger := m, stage := .sending u (Merger.sends m.sentRel u.items).1 }
  | (none, m) => { l with merger := m }

/-- One more event is sent, or they all are. -/
def send : Live :=
  match l.stage with
  | .sending u (_ :: left) => { l with stage := .sending u left }
  | .sending u [] =>
    { l with
      merger := l.merger.delivered u
      stage := .sent u
      lastSent := if u.position then Function.update l.lastSent u.shard u.endLSN else l.lastSent }
  | .reporting (_ :: left) => { l with stage := .reporting left }
  | .reporting [] => { l with stage := .between }
  | _ => l

/-- What the merger notes of a unit that was sent, one thing after the other. -/
def note : Live :=
  match l.stage with
  | .sent u =>
    { l with
      merger := l.merger.mark u
      emitted := if u.copy.isSome then l.emitted.setCopying u.shard true else l.emitted
      stage := .marked u }
  | .marked u =>
    { l with
      merger := l.merger.move u
      emitted := if l.merger.moves u then l.emitted.advance u.shard u.endLSN else l.emitted
      stage := .moved u }
  | .moved u =>
    { l with
      merger := l.merger.unmark u
      emitted := if u.copyDone then l.emitted.setCopying u.shard false else l.emitted
      stage := .reporting ((l.merger.unmark u).report u) }
  | _ => l

/-- An ack of one shard inside the stream. -/
def forwardAck (sh : Shard) (lsn : Nat) : Live :=
  if sh ∉ l.merger.shards ∨ (l.merger.copyOf sh).isSome then l
  else
    let lsn := min lsn ((l.emitted.pos sh).getD 0)
    if 0 < lsn then { l with want := Function.update l.want sh (max lsn (l.want sh)) } else l

end Live

/-- The slot of a stream on a shard. -/
abbrev Slot := String × Shard

/-- A call that acknowledges a stream from outside: the positions still to be looked at, and one whose
delivered position was read. -/
structure AckCall where
  stream : Nat
  entries : List (Shard × Nat)
  read : Option (Shard × Nat × Nat) := none

/-- An ack at a pooler, from the stream that waits for its answer: on its way, held to what a reader
delivered, and noted by that reader. -/
inductive PoolerAck
  | asked (pooler : Nat) (slot : Slot) (lsn : Nat) (caller : Option (Nat × Shard))
  | held (reader lsn : Nat) (caller : Option (Nat × Shard))
  | noted (reader lsn : Nat) (caller : Option (Nat × Shard))

/-- The one reader of a slot. -/
structure StreamReader where
  slot : Slot
  delivered : Nat
  acked : Nat := 0
  sent : Nat := 0

/-- `handed` is what a slot's streams have delivered: the end of the last batch, or the consistent point
of a copy that was handed over in full. -/
structure Router where
  streams : List Live := []
  queue : String → List Nat := fun _ => []
  calls : List AckCall := []
  acks : List PoolerAck := []
  readers : List StreamReader := []
  seats : Nat → Slot → Option Nat := fun _ _ => none
  handed : Slot → Nat := fun _ => 0

inductive Event
  | openStream (name : String) (shards : List Shard) (opts : Options) (generation fingerprint : Nat)
      (start : VPosition) (copy : Bool)
  | register (id : Nat)
  | close (id : Nat)
  -- the readers
  | push (id : Nat) (u : StreamUnit)
  | snapshot (id : Nat) (sh : Shard) (st : CopyState) (consistentPoint : Nat)
  | copyUnit (id : Nat) (sh : Shard) (st : CopyState) (items : List Item)
  | copyDone (id : Nat) (sh : Shard) (items : List Item)
  -- the merger
  | fill (id : Nat) (sh : Shard)
  | choose (id : Nat) (now : Int)
  | send (id : Nat)
  | note (id : Nat)
  | forwardAck (id : Nat) (sh : Shard) (lsn : Nat)
  -- acks on their way
  | forward (id : Nat) (sh : Shard) (pooler : Nat)
  | ack (name : String) (position : VPosition)
  | ackRead (call : Nat) (sh : Shard)
  | ackForward (call : Nat) (pooler : Nat)
  -- the poolers
  | claim (pooler id : Nat) (sh : Shard)
  | release (pooler : Nat) (slot : Slot)
  | batch (reader endLsn : Nat)
  | hold (ack : Nat)
  | store (ack : Nat)
  | sendStatus (reader : Nat)
  | answer (ack : Nat)
  | drop (ack : Nat)

namespace Router

variable (r : Router)

def change (id : Nat) (f : Live → Live) : Router := { r with streams := r.streams.modify id f }

/-- What a stream's acker asks a pooler for next. -/
def wanted (id : Nat) (sh : Shard) : Option Nat :=
  (r.streams[id]?).bind fun l => if l.done sh < l.want sh then some (l.want sh) else none

/-- What a call forwards of the position it has read: nothing while the shard is copying. -/
def cleared (call : Nat) : Option (Nat × Shard × Nat) :=
  (r.calls[call]?).bind fun c =>
    c.read.bind fun (sh, lsn, delivered) =>
      (r.streams[c.stream]?).bind fun l =>
        if l.emitted.isCopying sh || min lsn delivered = 0 then none else some (c.stream, sh, min lsn delivered)

def ask (id : Nat) (sh : Shard) (lsn pooler : Nat) (caller : Option (Nat × Shard)) : Router :=
  match r.streams[id]? with
  | some l => { r with acks := r.acks ++ [.asked pooler (l.name, sh) lsn caller] }
  | none => r

def hand (slot : Slot) (lsn : Nat) : Router :=
  { r with handed := Function.update r.handed slot (max lsn (r.handed slot)) }

/-- An event that cannot happen changes nothing. -/
def step : Event → Router
  | .openStream name shards opts generation fingerprint start copy =>
    { r with streams := r.streams ++ [.openWith name shards opts generation fingerprint start copy] }
  | .register id =>
    match r.streams[id]? with
    | some l =>
      if l.running then r
      else
        { r.change id fun l => { l with running := true } with
          queue := Function.update r.queue l.name (r.queue l.name ++ [id]) }
    | none => r
  | .close id =>
    match r.streams[id]? with
    | some l =>
      { r.change id fun l => { l with stage := .ended } with
        queue := Function.update r.queue l.name ((r.queue l.name).filter (· ≠ id)) }
    | none => r
  | .push id u =>
    match r.streams[id]? with
    | some l =>
      -- a unit of the slot's stream comes out of a batch
      if u.shard ∈ l.merger.shards && !l.copies u.shard && u.copy.isNone && !u.copyDone &&
          (!u.position || u.endLSN ≤ r.handed (l.name, u.shard)) then r.change id (·.push u)
      else r
    | none => r
  | .snapshot id sh st consistentPoint =>
    match r.streams[id]? with
    | some l =>
      if sh ∈ l.merger.shards && l.copies sh && 0 < consistentPoint then
        r.change id (·.pushSnapshot sh st consistentPoint)
      else r
    | none => r
  | .copyUnit id sh st items =>
    match r.streams[id]? with
    | some l =>
      if sh ∈ l.merger.shards && l.copies sh then
        r.change id (·.push { shard := sh, items := items, copy := some st })
      else r
    | none => r
  | .copyDone id sh items =>
    match r.streams[id]? with
    | some l =>
      if sh ∈ l.merger.shards && l.copies sh then
        (r.change id fun l => (l.push { shard := sh, items := items, copyDone := true }).endCopy sh).hand
          (l.name, sh) (l.snapshot sh)
      else r
    | none => r
  | .fill id sh => r.change id (·.fill sh)
  | .choose id now =>
    r.change id fun l => match l.stage with
      | .between => if l.running then l.choose now else l
      | _ => l
  | .send id => r.change id Live.send
  | .note id => r.change id Live.note
  | .forwardAck id sh lsn =>
    r.change id fun l => match l.stage with
      | .between => if l.running then l.forwardAck sh lsn else l
      | _ => l
  | .forward id sh pooler =>
    match r.wanted id sh with
    | some lsn => r.ask id sh lsn pooler (some (id, sh))
    | none => r
  | .ack name position =>
    match r.queue name with
    | id :: _ => { r with calls := r.calls ++ [⟨id, position.shards.map fun e => (e.1, positionFrom position e.1), none⟩] }
    | [] => r
  | .ackRead call sh =>
    { r with
      calls := r.calls.modify call fun c =>
        match c.entries.find? (·.1 = sh), c.read with
        | some (_, lsn), none =>
          { c with
            entries := c.entries.filter (·.1 ≠ sh)
            read := (r.streams[c.stream]?).bind fun l => (l.emitted.pos sh).map fun d => (sh, lsn, d) }
        | _, _ => c }
  | .ackForward call pooler =>
    let s := { r with calls := r.calls.modify call fun c => { c with read := none } }
    match r.cleared call with
    | some (id, sh, lsn) => s.ask id sh lsn pooler none
    | none => s
  | .claim pooler id sh =>
    match r.streams[id]? with
    | some l =>
      if (r.seats pooler (l.name, sh)).isSome || l.copies sh then r
      else
        { r with
          readers := r.readers ++ [⟨(l.name, sh), l.delivered sh, 0, 0⟩]
          seats := Function.update r.seats pooler
            (Function.update (r.seats pooler) (l.name, sh) (some r.readers.length)) }
    | none => r
  | .release pooler slot =>
    { r with seats := Function.update r.seats pooler (Function.update (r.seats pooler) slot none) }
  | .batch reader endLsn =>
    match r.readers[reader]? with
    | some sr =>
      { r.hand sr.slot endLsn with
        readers := r.readers.modify reader fun sr => { sr with delivered := max sr.delivered endLsn } }
    | none => r
  | .hold ack =>
    match r.acks[ack]? with
    | some (.asked pooler slot lsn caller) =>
      match r.seats pooler slot with
      | some reader =>
        match r.readers[reader]? with
        | some sr => { r with acks := r.acks.set ack (.held reader (min lsn sr.delivered) caller) }
        | none => r
      | none => r
    | _ => r
  | .store ack =>
    match r.acks[ack]? with
    | some (.held reader lsn caller) =>
      { r with
        acks := r.acks.set ack (.noted reader lsn caller)
        readers := r.readers.modify reader fun sr => { sr with acked := max lsn sr.acked } }
    | _ => r
  | .sendStatus reader => { r with readers := r.readers.modify reader fun sr => { sr with sent := sr.acked } }
  | .answer ack =>
    match r.acks[ack]? with
    | some (.noted reader lsn caller) =>
      if (r.readers[reader]?).any (lsn ≤ ·.sent) then
        { caller.elim r (fun (id, sh) => r.change id fun l => { l with done := Function.update l.done sh lsn }) with
          acks := r.acks.eraseIdx ack }
      else r
    | _ => r
  | .drop ack => { r with acks := r.acks.eraseIdx ack }

def run (events : List Event) : Router := events.foldl step r

end Router

/-- What an event forwards to a shard's pooler, and for which stream. -/
def Event.forwards (r : Router) : Event → Option (Nat × Shard × Nat)
  | .forward id sh _ => (r.wanted id sh).map fun lsn => (id, sh, lsn)
  | .ackForward call _ => r.cleared call
  | _ => none

/-- What an event reports to PostgreSQL for a slot. -/
def Event.confirms (r : Router) : Event → Option (Slot × Nat)
  | .sendStatus reader => (r.readers[reader]?).map fun sr => (sr.slot, sr.acked)
  | _ => none

end PgShard.Vstream
