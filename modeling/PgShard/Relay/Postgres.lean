import PgShard.Wire.Pipe

/-!
# PostgreSQL's side of the extended protocol

What a PostgreSQL session makes of the messages written to it, one at a time: the statements and
portals it holds, the messages it skips after an error until the next Sync, COPY taking the
stream over. How a message fares (whether it fails, how an execution ends, what a statement that
removes or creates prepared statements does to them) comes with the message as its `Effect`.
-/

namespace PgShard.Relay

structure Prepared where
  text : String
  oids : List Nat
  deriving DecidableEq, Repr

inductive Frontend where
  | parse (name text : String) (oids : List Nat)
  | bind (portal statement : String)
  | describeStatement (name : String)
  | describePortal (name : String)
  | execute (portal : String) (maxRows : Nat)
  | closeStatement (name : String)
  | closePortal (name : String)
  | query (text : String)
  | sync
  | flush
  | copyData (size : Nat)
  | copyDone
  | copyFail
  deriving DecidableEq, Repr

inductive Status where
  | idle
  | inTransaction
  | failed
  deriving DecidableEq, Repr

/-- Replies that come along with an answer and end nothing. -/
inductive Chatter where
  | dataRow
  | notice
  | notification
  | parameterStatus
  | parameterDescription
  | copyData
  | copyDone
  deriving DecidableEq, Repr

inductive Reply where
  | chatter (c : Chatter)
  | parseComplete
  | bindComplete
  | closeComplete
  | noData
  | rowDescription
  | commandComplete
  | emptyQuery
  | portalSuspended
  | copyIn
  | copyOut
  | copyBoth
  | error
  | ready (status : Status)
  deriving DecidableEq, Repr

/-- How the execution of a portal ends. -/
inductive Ending where
  | complete
  | empty
  | suspended
  | copyOut
  | copyIn
  deriving DecidableEq, Repr

/-- What may come inside the answer to a simple query. -/
inductive Result where
  | chatter (c : Chatter)
  | rowDescription
  | commandComplete
  | emptyQuery
  | copyOut
  deriving DecidableEq, Repr

def Result.reply : Result → Reply
  | .chatter c => .chatter c
  | .rowDescription => .rowDescription
  | .commandComplete => .commandComplete
  | .emptyQuery => .emptyQuery
  | .copyOut => .copyOut

structure Effect where
  fails : Bool
  chatter : List Chatter
  results : List Result
  /-- A described object returns rows. -/
  rows : Bool
  ending : Ending
  removes : String → Bool
  creates : String → Option Prepared
  /-- The portals that outlive the message. -/
  keeps : String → Bool
  status : Status

/-- A message that does what it is there for. -/
def Effect.plain : Effect where
  fails := false
  chatter := []
  results := []
  rows := false
  ending := .complete
  removes _ := false
  creates _ := none
  keeps _ := true
  status := .idle

/-- Which texts remove and create prepared statements when they run. -/
structure Dialect where
  removes : String → Bool
  creates : String → Bool

/-- A statement or the portal bound to it. It is overtaken when a named statement has been
created since the batch that carried its text began. -/
structure Held where
  prepared : Prepared
  overtaken : Bool
  deriving DecidableEq, Repr

def Held.overtake (h : Held) : Held := { h with overtaken := true }

inductive Copying where
  | simple
  | extended
  deriving DecidableEq, Repr

structure Session where
  statements : String → Option Held
  portals : String → Option Held
  skipping : Bool
  copying : Option Copying
  /-- A named statement was created since the last ReadyForQuery. -/
  named : Bool

def Session.fresh : Session where
  statements _ := none
  portals _ := none
  skipping := false
  copying := none
  named := false

namespace Session

def chat (e : Effect) : List Reply := e.chatter.map .chatter

/-- An error of a message of a batch: everything up to the Sync is skipped. -/
def fail (s : Session) (e : Effect) : Session × List Reply := ({ s with skipping := true }, chat e ++ [.error])

def create (s : Session) (name : String) (p : Prepared) : Session :=
  if name = "" then
    { s with statements := Function.update s.statements "" (some ⟨p, s.named⟩) }
  else
    { s with
      statements := Function.update (fun n => (s.statements n).map Held.overtake) name (some ⟨p, true⟩)
      portals := fun n => (s.portals n).map Held.overtake
      named := true }

/-- A text runs: it may take statements away and add new ones. -/
def runs (sql : Dialect) (s : Session) (text : String) (e : Effect) : Session :=
  { s with
    statements := fun n =>
      match s.statements n with
      | some h => if sql.removes text && e.removes n then none else some h
      | none => if sql.creates text then (e.creates n).map (⟨·, true⟩) else none
    portals := fun n => if e.keeps n then s.portals n else none }

def execute (sql : Dialect) (s : Session) (text : String) (e : Effect) : Session × List Reply :=
  let s := s.runs sql text e
  if e.fails then s.fail e
  else
    match e.ending with
    | .complete => (s, chat e ++ [.commandComplete])
    | .empty => (s, chat e ++ [.emptyQuery])
    | .suspended => (s, chat e ++ [.portalSuspended])
    | .copyOut => (s, .copyOut :: (chat e ++ [.commandComplete]))
    | .copyIn => ({ s with copying := some .extended }, chat e ++ [.copyIn])

/-- The end of a batch. -/
def endOfBatch (s : Session) (e : Effect) : Session :=
  { s with
    portals := fun n => if e.keeps n then s.portals n else none
    skipping := false
    copying := none
    named := false }

def query (sql : Dialect) (s : Session) (text : String) (e : Effect) : Session × List Reply :=
  let s := s.runs sql text e
  if e.fails then (s.endOfBatch e, e.results.map Result.reply ++ [.error, .ready e.status])
  else if e.ending = .copyIn then
    ({ s with copying := some .simple }, e.results.map Result.reply ++ [.copyIn])
  else (s.endOfBatch e, e.results.map Result.reply ++ [.ready e.status])

/-- A COPY that ends in an error. -/
def copyFailed (s : Session) (c : Copying) (e : Effect) : Session × List Reply :=
  match c with
  | .simple => (s.endOfBatch e, [.error, .ready e.status])
  | .extended => ({ s with copying := none, skipping := true }, [.error])

/-- COPY takes the stream over: Flush and Sync are ignored, and a message that is not COPY's ends
it in an error. -/
def processCopy (s : Session) (c : Copying) (m : Frontend) (e : Effect) : Session × List Reply :=
  match m with
  | .copyData _ => (s, [])
  | .flush => (s, [])
  | .sync => (s, [])
  | .copyDone =>
    if e.fails then s.copyFailed c e
    else
      match c with
      | .simple => (s.endOfBatch e, .commandComplete :: (e.results.map Result.reply ++ [.ready e.status]))
      | .extended => ({ s with copying := none }, [.commandComplete])
  | _ => s.copyFailed c e

def processReady (sql : Dialect) (s : Session) (m : Frontend) (e : Effect) : Session × List Reply :=
  match m with
  | .parse name text oids =>
    if e.fails || (name != "" && (s.statements name).isSome) then s.fail e
    else (s.create name ⟨text, oids⟩, chat e ++ [.parseComplete])
  | .bind portal statement =>
    match s.statements statement with
    | none => s.fail e
    | some h =>
      if e.fails then s.fail e
      else ({ s with portals := Function.update s.portals portal (some h) }, chat e ++ [.bindComplete])
  | .describeStatement name =>
    if e.fails || (s.statements name).isNone then s.fail e
    else (s, chat e ++ [if e.rows then .rowDescription else .noData])
  | .describePortal name =>
    if e.fails || (s.portals name).isNone then s.fail e
    else (s, chat e ++ [if e.rows then .rowDescription else .noData])
  | .execute portal _ =>
    match s.portals portal with
    | none => s.fail e
    | some h => s.execute sql h.prepared.text e
  | .closeStatement name =>
    ({ s with statements := Function.update s.statements name none }, chat e ++ [.closeComplete])
  | .closePortal name =>
    ({ s with portals := Function.update s.portals name none }, chat e ++ [.closeComplete])
  | .query text => s.query sql text e
  | .sync => (s.endOfBatch e, [.ready e.status])
  | .flush => (s, [])
  | .copyData _ => (s, [])
  | .copyDone => (s, [])
  | .copyFail => (s, [])

def process (sql : Dialect) (s : Session) (m : Frontend × Effect) : Session × List Reply :=
  match s.copying with
  | some c => s.processCopy c m.1 m.2
  | none =>
    if s.skipping then
      if m.1 = .sync then (s.endOfBatch m.2, [.ready m.2.status]) else (s, [])
    else s.processReady sql m.1 m.2

end Session

end PgShard.Relay
