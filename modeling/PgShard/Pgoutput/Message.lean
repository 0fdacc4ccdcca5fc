import PgShard.Wire.Reader

/-!
# The messages of logical replication

pgoutput, version 4. A timestamp is a number of microseconds on the wire and an instant once it is decoded, so
messages are over the type `T` of their timestamps. Lists are no longer than their length field can say, and
strings have no zero byte.
-/

namespace PgShard.Pgoutput

open Wire

inductive TupleColumn
  | null
  | unchanged
  | text (data : Counted 4 UInt8)
  | binary (data : Counted 4 UInt8)
  deriving DecidableEq

abbrev Tuple := Counted 2 TupleColumn

structure Column where
  key : Bool
  name : CString
  typeOID : UInt32
  typeMod : Int32
  deriving DecidableEq

structure Relation where
  xid : UInt32
  id : UInt32
  nspace : CString
  name : CString
  replicaIdentity : UInt8
  columns : Counted 2 Column
  deriving DecidableEq

/-- A previous image of a row: the key alone, or all of it. -/
inductive Image
  | key (t : Tuple)
  | old (t : Tuple)
  deriving DecidableEq

inductive Message (T : Type)
  | begin (finalLSN : UInt64) (commitTime : T) (xid : UInt32)
  | commit (flags : UInt8) (commitLSN endLSN : UInt64) (commitTime : T)
  | origin (commitLSN : UInt64) (name : CString)
  | relation (rel : Relation)
  | type (xid id : UInt32) (nspace name : CString)
  | insert (xid relationID : UInt32) (new : Tuple)
  | update (xid relationID : UInt32) (old : Option Image) (new : Tuple)
  | delete (xid relationID : UInt32) (old : Image)
  | truncate (xid : UInt32) (cascade restartIdentity : Bool) (relationIDs : Counted 4 UInt32)
  | logicalMessage (xid : UInt32) (transactional : Bool) (lsn : UInt64) (pfx : CString) (content : Counted 4 UInt8)
  | streamStart (xid : UInt32) (firstSegment : Bool)
  | streamStop
  | streamCommit (xid : UInt32) (flags : UInt8) (commitLSN endLSN : UInt64) (commitTime : T)
  | streamAbort (xid subXid : UInt32) (abort : Option (UInt64 × T))
  | beginPrepare (prepareLSN endLSN : UInt64) (prepareTime : T) (xid : UInt32) (gid : CString)
  | prepare (flags : UInt8) (prepareLSN endLSN : UInt64) (prepareTime : T) (xid : UInt32) (gid : CString)
  | commitPrepared (flags : UInt8) (commitLSN endLSN : UInt64) (commitTime : T) (xid : UInt32) (gid : CString)
  | rollbackPrepared (flags : UInt8) (prepareEndLSN rollbackEndLSN : UInt64) (prepareTime rollbackTime : T)
      (xid : UInt32) (gid : CString)
  | streamPrepare (flags : UInt8) (prepareLSN endLSN : UInt64) (prepareTime : T) (xid : UInt32) (gid : CString)
  deriving DecidableEq

/-- The kinds of messages; each is told by its first byte. -/
inductive Tag
  | begin | commit | origin | relation | type | insert | update | delete | truncate | logicalMessage
  | streamStart | streamStop | streamCommit | streamAbort
  | beginPrepare | prepare | commitPrepared | rollbackPrepared | streamPrepare
  deriving DecidableEq

namespace Tag

def char : Tag → Char
  | begin => 'B'
  | commit => 'C'
  | origin => 'O'
  | relation => 'R'
  | type => 'Y'
  | insert => 'I'
  | update => 'U'
  | delete => 'D'
  | truncate => 'T'
  | logicalMessage => 'M'
  | streamStart => 'S'
  | streamStop => 'E'
  | streamCommit => 'c'
  | streamAbort => 'A'
  | beginPrepare => 'b'
  | prepare => 'P'
  | commitPrepared => 'K'
  | rollbackPrepared => 'r'
  | streamPrepare => 'p'

def byte (t : Tag) : UInt8 := t.char.toUInt8

def all : List Tag :=
  [begin, commit, origin, relation, type, insert, update, delete, truncate, logicalMessage, streamStart, streamStop,
    streamCommit, streamAbort, beginPrepare, prepare, commitPrepared, rollbackPrepared, streamPrepare]

def ofByte (b : UInt8) : Option Tag := all.find? (·.byte = b)

/-- The messages that carry the transaction id inside a streamed segment. -/
def streamed : Tag → Bool
  | relation | type | insert | update | delete | truncate | logicalMessage => true
  | _ => false

lemma ofByte_eq_some {b : UInt8} {t : Tag} : ofByte b = some t ↔ b = t.byte := by
  constructor
  · intro h
    have hb := List.find?_some h
    exact (of_decide_eq_true hb).symm
  · rintro rfl
    cases t <;> decide

end Tag

namespace Message

variable {T T' : Type}

def tag : Message T → Tag
  | begin .. => .begin
  | commit .. => .commit
  | origin .. => .origin
  | relation .. => .relation
  | type .. => .type
  | insert .. => .insert
  | update .. => .update
  | delete .. => .delete
  | truncate .. => .truncate
  | logicalMessage .. => .logicalMessage
  | streamStart .. => .streamStart
  | streamStop => .streamStop
  | streamCommit .. => .streamCommit
  | streamAbort .. => .streamAbort
  | beginPrepare .. => .beginPrepare
  | prepare .. => .prepare
  | commitPrepared .. => .commitPrepared
  | rollbackPrepared .. => .rollbackPrepared
  | streamPrepare .. => .streamPrepare

/-- The id of the transaction a change of a streamed segment belongs to. -/
def changeXid : Message T → UInt32
  | relation rel => rel.xid
  | type xid .. | insert xid .. | update xid .. | delete xid .. | truncate xid ..
  | logicalMessage xid .. => xid
  | _ => 0

def map (f : T → T') : Message T → Message T'
  | begin lsn t xid => .begin lsn (f t) xid
  | commit flags lsn fin t => .commit flags lsn fin (f t)
  | origin lsn name => .origin lsn name
  | relation rel => .relation rel
  | type xid id ns name => .type xid id ns name
  | insert xid rel new => .insert xid rel new
  | update xid rel old new => .update xid rel old new
  | delete xid rel old => .delete xid rel old
  | truncate xid cascade restart rels => .truncate xid cascade restart rels
  | logicalMessage xid tx lsn pfx content => .logicalMessage xid tx lsn pfx content
  | streamStart xid first => .streamStart xid first
  | streamStop => .streamStop
  | streamCommit xid flags lsn fin t => .streamCommit xid flags lsn fin (f t)
  | streamAbort xid sub abort => .streamAbort xid sub (abort.map fun x => (x.1, f x.2))
  | beginPrepare lsn fin t xid gid => .beginPrepare lsn fin (f t) xid gid
  | prepare flags lsn fin t xid gid => .prepare flags lsn fin (f t) xid gid
  | commitPrepared flags lsn fin t xid gid => .commitPrepared flags lsn fin (f t) xid gid
  | rollbackPrepared flags lsn fin t t' xid gid => .rollbackPrepared flags lsn fin (f t) (f t') xid gid
  | streamPrepare flags lsn fin t xid gid => .streamPrepare flags lsn fin (f t) xid gid

def times : Message T → List T
  | begin _ t _ | commit _ _ _ t | streamCommit _ _ _ _ t | beginPrepare _ _ t _ _ | prepare _ _ _ t _ _
  | commitPrepared _ _ _ t _ _ | streamPrepare _ _ _ t _ _ | streamAbort _ _ (some (_, t)) => [t]
  | rollbackPrepared _ _ _ t t' _ _ => [t, t']
  | _ => []

end Message

end PgShard.Pgoutput
