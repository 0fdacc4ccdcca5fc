import PgShard.Relay.PreparedSet

/-!
# The pooler's relay

One Execute stream: a request passes the fences, gets a backend if the session holds none, is
buffered on it, and a Sync, a simple query or the end of a COPY flushes the buffer and pumps the
replies up to ReadyForQuery; a Flush pumps them until as many have come as are awaited. Requests
are taken one at a time; while the relay pumps, the steps are the replies it reads. What the
catalog view says, how an acquire ends and whether a flush goes through come with the request.
-/

namespace PgShard.Relay

open Wire

structure View where
  standby : Bool
  serving : Bool
  generation : Nat
  epoch : Nat
  migrating : Bool
  deriving DecidableEq, Repr

structure Generation where
  shardMapGeneration : Nat
  primaryEpoch : Nat
  deriving DecidableEq, Repr

structure Request where
  generation : Option Generation
  /-- `none` is a Cancel on the session's own stream. -/
  message : Option Frontend
  deriving DecidableEq, Repr

inductive Refusal where
  | notPrimary
  | staleView
  | noGeneration
  | staleGeneration (request pooler : Nat)
  | staleEpoch (request pooler : Nat)
  | migrating
  | draining
  | startup (code message : String)
  | noBackend (cause : String)
  | backendLost
  deriving DecidableEq, Repr

def fenceSQLState : String := "55000"

def migratingSQLState : String := "57P03"

def Refusal.sqlstate : Refusal → String
  | .notPrimary => fenceSQLState
  | .staleView => fenceSQLState
  | .noGeneration => fenceSQLState
  | .staleGeneration _ _ => fenceSQLState
  | .staleEpoch _ _ => fenceSQLState
  | .migrating => migratingSQLState
  | .draining => "57P03"
  | .startup code _ => code
  | .noBackend _ => "53300"
  | .backendLost => "08006"

def member (v : View) : Option Refusal :=
  if v.standby then some .notPrimary else none

def serving (v : View) : Option Refusal :=
  if v.serving then none else some .staleView

def fence (v : View) : Option Generation → Option Refusal
  | none => some .noGeneration
  | some g =>
    if g.shardMapGeneration ≠ v.generation then
      some (.staleGeneration g.shardMapGeneration v.generation)
    else if g.primaryEpoch ≠ v.epoch then some (.staleEpoch g.primaryEpoch v.epoch)
    else none

def isPrepareTransaction (sql : String) : Bool :=
  startsFold (sql.toList.dropWhile fun c => c == ' ' || c == '\t' || c == '\r' || c == '\n' || c == '(')
    "PREPARE TRANSACTION".toList

def Frontend.sql : Frontend → String
  | .query text => text
  | .parse _ text _ => text
  | _ => ""

def fenceMigrating (v : View) (req : Request) : Option Refusal :=
  if v.migrating && isPrepareTransaction ((req.message.map Frontend.sql).getD "") then
    some .migrating
  else none

def gate (v : View) (req : Request) : Option Refusal :=
  member v <|> serving v <|> fence v req.generation <|> fenceMigrating v req

abbrev Line := Pipe Session (Frontend × Effect) Reply

structure Backend where
  line : Line
  /-- The requests whose messages have been buffered since the last flush. -/
  unflushed : List Nat
  prepared : PreparedSet
  sqlPrepared : Bool
  txStatus : Status

def Backend.fresh : Backend where
  line := ⟨Session.fresh, [], []⟩
  unflushed := []
  prepared := PreparedSet.empty
  sqlPrepared := false
  txStatus := .idle

def Backend.send (b : Backend) (position : Nat) (m : Frontend) (e : Effect) : Backend :=
  { b with line := b.line.put (m, e), unflushed := b.unflushed ++ [position] }

/-- A reply is read; ReadyForQuery sets the status. -/
def Backend.receive (sql : Dialect) (b : Backend) : Option (Reply × Backend) :=
  match b.line.receive (Session.process sql) with
  | none => none
  | some (r, line) =>
    some (r, { b with
      line := line
      txStatus := match r with
        | .ready status => status
        | _ => b.txStatus })

/-- `recycle` once its queries went through: the transaction is over and DISCARD ALL leaves
nothing of the session. -/
def Backend.recycled (b : Backend) : Backend :=
  { b with
    line := { b.line with state := Session.fresh }
    prepared := PreparedSet.empty
    sqlPrepared := false
    txStatus := .idle }

inductive CloseAction where
  | forwarded
  | injected
  | asParse
  deriving DecidableEq, Repr

inductive Response where
  | refused (e : Refusal)
  | reply (r : Reply)
  | flushComplete
  deriving DecidableEq, Repr

inductive Phase where
  | ready
  | pumping
  | flushing
  /-- The router is gone. -/
  | ended
  deriving DecidableEq, Repr

structure State where
  backend : Option Backend
  pool : List Backend
  reserved : Bool
  closes : List CloseAction
  parsed : List String
  batchErr : Bool
  awaiting : Nat
  copyBytes : Nat
  phase : Phase
  taken : List Request
  /-- The requests that were refused, and those PostgreSQL has got, by their places in `taken`. -/
  refused : List Nat
  written : List Nat
  sent : List Response

def State.start (reserved : Bool) : State where
  backend := none
  pool := []
  reserved := reserved
  closes := []
  parsed := []
  batchErr := false
  awaiting := 0
  copyBytes := 0
  phase := .ready
  taken := []
  refused := []
  written := []
  sent := []

inductive Acquire where
  | pooled (i : Nat)
  | dialled
  | startup (code message : String)
  | failed (cause : String)
  deriving DecidableEq, Repr

/-- What a request meets on its way. -/
structure Handling where
  view : View
  draining : Bool
  acquire : Acquire
  drainingAfter : Bool
  viewAfter : View
  effect : Effect
  /-- The fate of a Close the pooler puts before the message. -/
  closing : Effect
  flushes : Bool

def noopPortal : String := "pgshard_noop"

def flushEveryCopyBytes : Nat := 65536

namespace State

def send (s : State) (r : Response) : State := { s with sent := s.sent ++ [r] }

def txStatus (s : State) : Status :=
  match s.backend with
  | some b => b.txStatus
  | none => .idle

def dropUnflushed (s : State) : State :=
  match s.backend with
  | none => s
  | some b =>
    if b.unflushed = [] then s
    else { s with backend := none, closes := [], parsed := [], batchErr := false }

def refuse (s : State) (e : Refusal) : State :=
  let s := s.dropUnflushed
  ({ s with phase := .ready }.send (.refused e)).send (.reply (.ready s.txStatus))

def backendLost (s : State) : State :=
  { s with closes := [], parsed := [], batchErr := false, backend := none }.refuse .backendLost

def got (pool : List Backend) : Acquire → Backend × List Backend
  | .pooled i => (pool.getD i Backend.fresh, pool.eraseIdx i)
  | _ => (Backend.fresh, pool)

def adopt (s : State) (req : Request) (l : Handling) : Option Refusal × State :=
  let (b, pool) := got s.pool l.acquire
  if l.drainingAfter then (some .draining, { s with pool := pool })
  else (gate l.viewAfter req, { s with backend := some b, pool := pool })

def acquire (s : State) (req : Request) (l : Handling) : Option Refusal × State :=
  if l.draining then (some .draining, s)
  else
    match l.acquire with
    | .startup code message => (some (.startup code message), s)
    | .failed cause => (some (.noBackend cause), s)
    | .pooled _ => s.adopt req l
    | .dialled => s.adopt req l

/-- The fences, and a backend for a message that needs one. -/
def admission (s : State) (req : Request) (l : Handling) : Option Refusal × State :=
  match gate l.view req with
  | some e => (some e, s)
  | none => if req.message.isSome && s.backend.isNone then s.acquire req l else (none, s)

def expect (s : State) (b : Backend) (position : Nat) (m : Frontend) (e : Effect) : State :=
  { s with backend := some (b.send position m e), awaiting := s.awaiting + 1 }

/-- The text of a Parse or a simple query puts the tracked names in doubt when it is forwarded. -/
def noteText (toUpper : String → String) (b : Backend) (text : String) : Backend :=
  { b with
    prepared := if touchesPrepared toUpper text then b.prepared.doubtAll else b.prepared
    sqlPrepared := b.sqlPrepared || createsPrepared text }

/-- A named Parse: a no-op Close stands in for one the backend holds, and a Close goes before
one it may hold. -/
def forwardParse (s : State) (b : Backend) (position : Nat) (name text : String) (oids : List Nat)
    (l : Handling) : State :=
  let fp := statementFingerprint ⟨text, oids⟩
  if !b.sqlPrepared && b.prepared.holds name fp then
    { s with closes := s.closes ++ [CloseAction.asParse] }.expect b position (.closePortal noopPortal) l.effect
  else
    let b' := { b with prepared := b.prepared.set name ⟨fp, false⟩ }
    if b.prepared.mayHold name || b.sqlPrepared then
      { s with
        closes := s.closes ++ [CloseAction.injected]
        parsed := s.parsed ++ [name]
        awaiting := s.awaiting + 1 }.expect (b'.send position (.closeStatement name) l.closing)
        position (.parse name text oids) l.effect
    else
      { s with parsed := s.parsed ++ [name] }.expect b' position (.parse name text oids) l.effect

def forward (toUpper : String → String) (s : State) (b : Backend) (position : Nat) (m : Frontend)
    (l : Handling) : State :=
  match m with
  | .parse name text oids =>
    if name = "" then s.expect (noteText toUpper b text) position m l.effect
    else s.forwardParse (noteText toUpper b text) position name text oids l
  | .closeStatement name =>
    { s with closes := s.closes ++ [CloseAction.forwarded] }.expect
      (if name = "" then b else { b with prepared := b.prepared.forget name }) position m l.effect
  | .closePortal _ => { s with closes := s.closes ++ [CloseAction.forwarded] }.expect b position m l.effect
  | .query text => s.expect (noteText toUpper b text) position m l.effect
  | _ => s.expect b position m l.effect

/-- What is buffered is written. -/
def flush (s : State) : State :=
  match s.backend with
  | none => s
  | some b => { s with backend := some { b with unflushed := [] }, written := s.written ++ b.unflushed }

def pump (s : State) (flushes : Bool) : State :=
  if flushes then { s.flush with phase := .pumping } else s.backendLost

def complete (s : State) : State := { s.send .flushComplete with phase := .ready }

/-- `pumpFlush` before it reads. -/
def pumpFlush (s : State) (flushes : Bool) : State :=
  if flushes then
    if s.awaiting = 0 then s.flush.complete else { s.flush with phase := .flushing }
  else s.backendLost

def copied (s : State) (size : Nat) (flushes : Bool) : State :=
  if s.copyBytes + size < flushEveryCopyBytes then { s with copyBytes := s.copyBytes + size }
  else if flushes then { s.flush with copyBytes := 0 }
  else { s with copyBytes := 0 }.backendLost

def relay (toUpper : String → String) (s : State) (b : Backend) (position : Nat) (m : Frontend)
    (l : Handling) : State :=
  match m with
  | .flush => { s with backend := some (b.send position .flush l.effect) }.pumpFlush l.flushes
  | .copyData size => (s.forward toUpper b position m l).copied size l.flushes
  | .query _ | .sync | .copyDone | .copyFail =>
    { s.forward toUpper b position m l with copyBytes := 0 }.pump l.flushes
  | _ => s.forward toUpper b position m l

/-- `relay.handle`. -/
def handle (toUpper : String → String) (s : State) (req : Request) (l : Handling) : State :=
  let position := s.taken.length
  let s := { s with taken := s.taken ++ [req] }
  match s.admission req l with
  | (some e, s) => { s with refused := s.refused ++ [position] }.refuse e
  | (none, s) =>
    match req.message, s.backend with
    | some m, some b => s.relay toUpper b position m l
    | _, _ => s

/-- `terminatesMessage`. -/
def terminatesMessage : Reply → Bool
  | .parseComplete => true
  | .bindComplete => true
  | .closeComplete => true
  | .noData => true
  | .rowDescription => true
  | .commandComplete => true
  | .emptyQuery => true
  | .portalSuspended => true
  | .copyIn => true
  | .copyOut => true
  | .copyBoth => true
  | .chatter _ => false
  | .error => false
  | .ready _ => false

/-- A reply goes out to the router; the place of a CloseComplete in the queue says what becomes of
it. The answer is the reply as it went out. -/
def deliver (s : State) (r : Reply) : State :=
  match r, s.closes with
  | .closeComplete, .injected :: rest => { s with closes := rest }
  | .closeComplete, .asParse :: rest => { s with closes := rest }.send (.reply .parseComplete)
  | .closeComplete, .forwarded :: rest => { s with closes := rest }.send (.reply r)
  | _, _ => s.send (.reply r)

def endBatch (s : State) (b : Backend) : State :=
  { s with
    backend := some
      (if s.batchErr then b else { b with prepared := b.prepared.certify s.parsed })
    closes := []
    parsed := []
    batchErr := false
    awaiting := 0 }

/-- An unreserved session between transactions gives its backend back. -/
def giveBack (s : State) (recycles : Bool) : State :=
  match s.backend with
  | none => s
  | some b =>
    if !s.reserved && b.txStatus = .idle then
      { s with
        backend := none
        pool := if recycles && b.unflushed = [] then s.pool ++ [b.recycled] else s.pool }
    else s

def takesOver : Reply → Bool
  | .copyIn => true
  | .copyBoth => true
  | _ => false

def readPump (s : State) (b : Backend) (r : Reply) (recycles : Bool) : State :=
  let s := { s with backend := some b, batchErr := s.batchErr || r == Reply.error }.deliver r
  match r with
  | .ready _ => ({ s.endBatch b with phase := .ready }).giveBack recycles
  | _ => if takesOver r then { s with phase := .ready } else s

def count (s : State) (r : Reply) : State :=
  if r = .error then { s with batchErr := true, awaiting := 0 }
  else if terminatesMessage r then { s with awaiting := s.awaiting - 1 }
  else s

def readFlush (s : State) (b : Backend) (r : Reply) : State :=
  let s := ({ s with backend := some b }.count r).deliver r
  if takesOver r then { s with phase := .ready }
  else if s.awaiting = 0 then s.complete
  else s

/-- The next reply, if one is coming. -/
def read (sql : Dialect) (s : State) (recycles : Bool) : State :=
  match s.backend with
  | none => s
  | some b =>
    match b.receive sql with
    | none => s
    | some (r, b) =>
      match s.phase with
      | .pumping => s.readPump b r recycles
      | .flushing => s.readFlush b r
      | _ => s

end State

inductive Event where
  | request (req : Request) (l : Handling)
  /-- The pump reads a reply; `recycles` says how a recycle after it goes. -/
  | reads (recycles : Bool)
  /-- The connection fails under the pump. -/
  | lost
  /-- The router is gone when a reply is sent. -/
  | gone
  | reserve (reserved : Bool)

def Phase.pumps : Phase → Bool
  | .pumping => true
  | .flushing => true
  | _ => false

def step (sql : Dialect) (toUpper : String → String) (s : State) : Event → State
  | .request req l => if s.phase = .ready then s.handle toUpper req l else s
  | .reads recycles => s.read sql recycles
  | .lost => if s.phase.pumps then s.backendLost else s
  | .gone => { s with phase := .ended }
  | .reserve reserved => { s with reserved := reserved }

def run (sql : Dialect) (toUpper : String → String) (s : State) (events : List Event) : State :=
  events.foldl (step sql toUpper) s

end PgShard.Relay
