import PgShard.Placer.Exact

/-!
# Catching up with a source

A round reads where the source's WAL ends, peeks at what the slot decodes, applies the transactions that
it saw commit, and moves the slot. The source goes on meanwhile: it writes WAL, and later flushes it.
-/

namespace PgShard.Placer

/-- The table a change is of, as the slot's relation message gave it. -/
structure Relation where
  schema : String
  name : String
  columns : List String
  deriving DecidableEq, Repr

/-- What the decoder makes of a message before a transaction's commit. -/
inductive Message
  /-- Nothing to apply, such as a begin or a relation. -/
  | silent
  | invalid
  | change (relation : Relation) (c : Change)

/-- A transaction that the slot decodes; `lsn` is the end of its commit record. -/
structure Tx where
  lsn : Nat
  messages : List Message

/-- A row of a peek. -/
inductive Row
  | message (m : Message)
  | commit (lsn : Nat)

def Tx.rows (tx : Tx) : List Row := tx.messages.map .message ++ [.commit tx.lsn]

/-- Whole transactions, up to the one that reaches the limit. -/
def takeTxs (limit : Nat) : List Tx → List Tx
  | [] => []
  | tx :: txs => if limit ≤ tx.rows.length then [tx] else tx :: takeTxs (limit - tx.rows.length) txs

def peekChanges : Nat := 2000
def applyFlushOps : Nat := 2000
def applyFlushBytes : Nat := 8 * 2 ^ 20
def catchUpMaxOpenBytes : Nat := 256 * 2 ^ 20

/-- What a round knows of its workflow; `sqlBytes` is the length of an upsert that is rendered alone. -/
structure Workflow where
  schema : String
  table : String
  columns : List String
  rt : PlacementRouter
  shape : RowShape
  sqlBytes : Tuple → Nat

def ApplyOp.bytes (wf : Workflow) (op : ApplyOp) : Nat :=
  match op.kind with
  | .up row => upBytes row
  | .del row => delBytes wf.shape row
  | .sql row => wf.sqlBytes row

inductive Stop
  | undecodable
  | columnsChanged
  | unroutable (e : RouteError)
  | tooLarge (bytes : Nat)

/-- The operations of committed transactions that wait for a flush, and those of the open one. -/
structure Round where
  ready : List ApplyOp := []
  opened : List ApplyOp := []
  readyBytes : Nat := 0
  openBytes : Nat := 0
  commitLSN : Option Nat := none
  msgCount : Nat := 0

/-- The change is of another table. -/
def Relation.other (wf : Workflow) (rel : Relation) : Bool := rel.schema ≠ wf.schema || rel.name ≠ wf.table

namespace Round

def message (wf : Workflow) (r : Round) : Message → Except Stop Round
  | .silent => .ok { r with msgCount := r.msgCount + 1 }
  | .invalid => .error .undecodable
  | .change rel c =>
    if rel.other wf then .ok { r with msgCount := r.msgCount + 1 }
    else if rel.columns ≠ wf.columns then .error .columnsChanged
    else
      match routeChange wf.rt wf.shape c with
      | .error e => .error (.unroutable e)
      | .ok ops =>
        let bytes := r.openBytes + (ops.map (ApplyOp.bytes wf)).sum
        if catchUpMaxOpenBytes < bytes then .error (.tooLarge bytes)
        else .ok { r with opened := r.opened ++ ops, openBytes := bytes, msgCount := r.msgCount + 1 }

def commit (r : Round) (lsn : Nat) : Round where
  ready := r.ready ++ r.opened
  readyBytes := r.readyBytes + r.openBytes
  commitLSN := some lsn
  msgCount := r.msgCount + 1

/-- Enough has been held for a flush in the middle of the rows. -/
def full (r : Round) : Bool := applyFlushOps ≤ r.ready.length || applyFlushBytes ≤ r.readyBytes

def flushed (r : Round) : Round := { r with ready := [], readyBytes := 0 }

/-- Where the slot is moved once all is applied: nowhere when there were rows and no commit. -/
def target (r : Round) (upto : Nat) : Option Nat :=
  match r.commitLSN with
  | some lsn => some lsn
  | none => if r.msgCount = 0 then some upto else none

end Round

/-- Where a round stands. -/
inductive Phase
  | idle
  /-- The WAL end was read. -/
  | read (upto : Nat)
  /-- The rows of the peek that are still to be decoded. -/
  | decoding (upto : Nat) (rest : List Row) (r : Round)
  /-- The ready operations are to be applied; `last` once the rows are over. -/
  | flushing (upto : Nat) (rest : List Row) (r : Round) (last : Bool)
  | applied (upto : Nat) (r : Round)

/-- The source's transactions in the order of their commits, its WAL positions and its slot; and the
statements that each target has committed. -/
structure CatchUp where
  txs : List Tx := []
  written : Nat := 0
  flushed : Nat := 0
  slot : Nat := 0
  sent : Int → List Statement := fun _ => []
  phase : Phase := .idle

inductive Event
  /-- The source writes the commit record of a transaction that the slot decodes. -/
  | commit (messages : List Message) (length : Nat)
  /-- It writes records of another kind. -/
  | write (length : Nat)
  | flushTo (lsn : Nat)
  | readEnd
  | peek
  | row
  /-- The ready operations are applied; each target has committed so many of its statements when the
  last of them ends. -/
  | apply (done : Int → Nat)
  | advance
  /-- An error, or the end of the process. -/
  | fail

namespace CatchUp

variable (wf : Workflow)

/-- The rows that the slot has to show. -/
def decodable (p : CatchUp) : List Tx :=
  takeTxs peekChanges (p.txs.filter fun tx => p.slot < tx.lsn && tx.lsn ≤ p.flushed)

def goto (p : CatchUp) (phase : Phase) : CatchUp := { p with phase := phase }

/-- Every target has committed all its statements. -/
def complete (ready : List ApplyOp) (done : Int → Nat) : Bool :=
  ready.all fun op => (statementsFor wf.shape ready op.shard).length ≤ done op.shard

def send (p : CatchUp) (ready : List ApplyOp) (done : Int → Nat) : CatchUp :=
  { p with sent := fun t => p.sent t ++ (statementsFor wf.shape ready t).take (done t) }

/-- `pg_replication_slot_advance`: at most to the flush position, and never back. -/
def slotAdvance (p : CatchUp) (lsn : Nat) : CatchUp :=
  if min lsn p.flushed < p.slot then p else { p with slot := min lsn p.flushed }

/-- The next row of the peek; behind the last one, the last flush. -/
def decodeRow (p : CatchUp) (upto : Nat) (r : Round) : List Row → CatchUp
  | [] => p.goto (.flushing upto [] r true)
  | .message m :: rest =>
    match r.message wf m with
    | .error _ => p.goto .idle
    | .ok r => p.goto (.decoding upto rest r)
  | .commit lsn :: rest =>
    if (r.commit lsn).full then p.goto (.flushing upto rest (r.commit lsn) false)
    else p.goto (.decoding upto rest (r.commit lsn))

def applyOps (p : CatchUp) (upto : Nat) (rest : List Row) (r : Round) (last : Bool) (done : Int → Nat) : CatchUp :=
  if complete wf r.ready done then
    (p.send wf r.ready done).goto (if last then .applied upto r.flushed else .decoding upto rest r.flushed)
  else (p.send wf r.ready done).goto .idle

/-- An event that cannot happen changes nothing. -/
def step (p : CatchUp) : Event → CatchUp
  | .commit messages length =>
    { p with txs := p.txs ++ [⟨p.written + length + 1, messages⟩], written := p.written + length + 1 }
  | .write length => { p with written := p.written + length }
  | .flushTo lsn => { p with flushed := max p.flushed (min lsn p.written) }
  | .readEnd =>
    match p.phase with
    | .idle => p.goto (.read p.written)
    | _ => p
  | .peek =>
    match p.phase with
    | .read upto => p.goto (.decoding upto (p.decodable.flatMap Tx.rows) {})
    | _ => p
  | .row =>
    match p.phase with
    | .decoding upto rest r => p.decodeRow wf upto r rest
    | _ => p
  | .apply done =>
    match p.phase with
    | .flushing upto rest r last => p.applyOps wf upto rest r last done
    | _ => p
  | .advance =>
    match p.phase with
    | .applied upto r =>
      match r.target upto with
      | some lsn => (p.slotAdvance lsn).goto .idle
      | none => p.goto .idle
    | _ => p
  | .fail => p.goto .idle

def run (p : CatchUp) (events : List Event) : CatchUp := events.foldl (step wf) p

end CatchUp

/-- The changes of the table, in order. -/
def Message.changeOf (wf : Workflow) : Message → Option Change
  | .change rel c => if rel.other wf then none else some c
  | _ => none

def Tx.changes (wf : Workflow) (tx : Tx) : List Change := tx.messages.filterMap (Message.changeOf wf)

/-- The operations a target has committed. -/
def CatchUp.sentOps (p : CatchUp) (t : Int) : List OpKind := (p.sent t).flatMap Statement.ops

/-- All operations of the transaction have been applied to their targets. -/
def Tx.Applied (wf : Workflow) (p : CatchUp) (tx : Tx) : Prop :=
  ∃ ops, opsOf wf.rt wf.shape (tx.changes wf) = .ok ops ∧ ∀ t, kindsFor ops t <:+: p.sentOps t

/-- The slot, which was made at `start`, is past no transaction of the table that was not applied. -/
def CatchUp.SkipsNone (wf : Workflow) (start : Nat) (p : CatchUp) : Prop :=
  ∀ tx ∈ p.txs, tx.changes wf ≠ [] → start < tx.lsn → tx.lsn ≤ p.slot → tx.Applied wf p

end PgShard.Placer
