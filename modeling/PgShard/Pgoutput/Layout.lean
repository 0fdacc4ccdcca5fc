import PgShard.Pgoutput.Decode

/-!
# The wire layout

How the protocol lays a message out, apart from any decoder. Bits of a flag byte that the protocol does not use may
have any value, so the layout is a relation; `encode` leaves them zero.
-/

namespace PgShard.Pgoutput

open Wire

def w32 (x : UInt32) : Bytes := be 4 x.toNat

def w64 (x : UInt64) : Bytes := be 8 x.toNat

def wmicros (t : Int64) : Bytes := w64 t.toUInt64

def wstring (s : CString) : Bytes := s.1 ++ [0]

def wbytes (bs : Counted 4 UInt8) : Bytes := be 4 bs.1.length ++ bs.1

def flag (b : Bool) (bit : UInt8) : UInt8 := if b then bit else 0

def TupleColumn.bytes : TupleColumn → Bytes
  | null => ['n'.toUInt8]
  | unchanged => ['u'.toUInt8]
  | text data => 't'.toUInt8 :: wbytes data
  | binary data => 'b'.toUInt8 :: wbytes data

def wtuple (t : Tuple) : Bytes := be 2 t.1.length ++ t.1.flatMap TupleColumn.bytes

def Image.bytes : Image → Bytes
  | key t => 'K'.toUInt8 :: wtuple t
  | old t => 'O'.toUInt8 :: wtuple t

/-- The fields of a column, but for the byte of its flags. -/
def Column.fields (c : Column) (flags : UInt8) : Bytes :=
  [[flags], wstring c.name, w32 c.typeOID, w32 c.typeMod.toUInt32].flatten

def Column.Lays (c : Column) (used : Bytes) : Prop :=
  ∃ flags : UInt8, (flags &&& 1 != 0) = c.key ∧ used = c.fields flags

def Column.encode (c : Column) : Bytes := c.fields (flag c.key 1)

def Relation.fields (rel : Relation) (cols : Bytes) : Bytes :=
  [w32 rel.id, wstring rel.nspace, wstring rel.name, [rel.replicaIdentity], be 2 rel.columns.1.length, cols].flatten

def wabort : Option (UInt64 × Int64) → Bytes
  | none => []
  | some (lsn, t) => w64 lsn ++ wmicros t

def wold : Option Image → Bytes
  | none => []
  | some i => i.bytes

/-- The fields of the second phase of a transaction. -/
def wprepared (flags : UInt8) (lsn fin : UInt64) (times : List Int64) (xid : UInt32) (gid : CString) : Bytes :=
  [[flags], w64 lsn, w64 fin, times.flatMap wmicros, w32 xid, wstring gid].flatten

/-- What follows the kind of the message and, in a streamed segment, its transaction id. -/
inductive Laid (xid : UInt32) : Tag → Message Int64 → Bytes → Prop
  | begin {lsn : UInt64} {t : Int64} {x : UInt32} :
      Laid xid .begin (.begin lsn t x) [w64 lsn, wmicros t, w32 x].flatten
  | commit {flags : UInt8} {lsn fin : UInt64} {t : Int64} :
      Laid xid .commit (.commit flags lsn fin t) [[flags], w64 lsn, w64 fin, wmicros t].flatten
  | origin {lsn : UInt64} {name : CString} : Laid xid .origin (.origin lsn name) [w64 lsn, wstring name].flatten
  | relation {rel : Relation} {v : Bytes} (hxid : rel.xid = xid) (hcols : Sequence Column.Lays rel.columns.1 v) :
      Laid xid .relation (.relation rel) (rel.fields v)
  | type {id : UInt32} {ns name : CString} :
      Laid xid .type (.type xid id ns name) [w32 id, wstring ns, wstring name].flatten
  | insert {rel : UInt32} {new : Tuple} :
      Laid xid .insert (.insert xid rel new) [w32 rel, ['N'.toUInt8], wtuple new].flatten
  | update {rel : UInt32} {old : Option Image} {new : Tuple} :
      Laid xid .update (.update xid rel old new) [w32 rel, wold old, ['N'.toUInt8], wtuple new].flatten
  | delete {rel : UInt32} {old : Image} : Laid xid .delete (.delete xid rel old) [w32 rel, old.bytes].flatten
  | truncate {opts : UInt8} {cascade restart : Bool} {rels : Counted 4 UInt32} (hcascade : (opts &&& 1 != 0) = cascade)
      (hrestart : (opts &&& 2 != 0) = restart) :
      Laid xid .truncate (.truncate xid cascade restart rels) [be 4 rels.1.length, [opts], rels.1.flatMap w32].flatten
  | logicalMessage {flags : UInt8} {tx : Bool} {lsn : UInt64} {pfx : CString} {content : Counted 4 UInt8}
      (htx : (flags &&& 1 != 0) = tx) :
      Laid xid .logicalMessage (.logicalMessage xid tx lsn pfx content)
        [[flags], w64 lsn, wstring pfx, wbytes content].flatten
  | streamStart {x : UInt32} {b : UInt8} {first : Bool} (hfirst : (b == 1) = first) :
      Laid xid .streamStart (.streamStart x first) [w32 x, [b]].flatten
  | streamStop : Laid xid .streamStop .streamStop []
  | streamCommit {x : UInt32} {flags : UInt8} {lsn fin : UInt64} {t : Int64} :
      Laid xid .streamCommit (.streamCommit x flags lsn fin t) [w32 x, [flags], w64 lsn, w64 fin, wmicros t].flatten
  | streamAbort {x sub : UInt32} {aborted : Option (UInt64 × Int64)} :
      Laid xid .streamAbort (.streamAbort x sub aborted) [w32 x, w32 sub, wabort aborted].flatten
  | beginPrepare {lsn fin : UInt64} {t : Int64} {x : UInt32} {gid : CString} :
      Laid xid .beginPrepare (.beginPrepare lsn fin t x gid) [w64 lsn, w64 fin, wmicros t, w32 x, wstring gid].flatten
  | prepare {flags : UInt8} {lsn fin : UInt64} {t : Int64} {x : UInt32} {gid : CString} :
      Laid xid .prepare (.prepare flags lsn fin t x gid) (wprepared flags lsn fin [t] x gid)
  | commitPrepared {flags : UInt8} {lsn fin : UInt64} {t : Int64} {x : UInt32} {gid : CString} :
      Laid xid .commitPrepared (.commitPrepared flags lsn fin t x gid) (wprepared flags lsn fin [t] x gid)
  | rollbackPrepared {flags : UInt8} {lsn fin : UInt64} {t t' : Int64} {x : UInt32} {gid : CString} :
      Laid xid .rollbackPrepared (.rollbackPrepared flags lsn fin t t' x gid) (wprepared flags lsn fin [t, t'] x gid)
  | streamPrepare {flags : UInt8} {lsn fin : UInt64} {t : Int64} {x : UInt32} {gid : CString} :
      Laid xid .streamPrepare (.streamPrepare flags lsn fin t x gid) (wprepared flags lsn fin [t] x gid)

/-- The transaction id in front of a change of a streamed segment. -/
def xidBytes (inStream : Bool) (t : Tag) (xid : UInt32) : Bytes := if inStream && t.streamed then w32 xid else []

namespace Message

/-- The message is laid out as these bytes. Only a change of a streamed segment has a transaction id. -/
def Lays (inStream : Bool) (m : Message Int64) (used : Bytes) : Prop :=
  ∃ t xid v, ((inStream && t.streamed) = false → xid = 0) ∧ used = t.byte :: (xidBytes inStream t xid ++ v) ∧
    Laid xid t m v

/-- An abort without its last fields is told from one with them by the number of bytes that follow. -/
def Closed (rest : Bytes) : Message Int64 → Prop
  | streamAbort _ _ none => rest.length < 16
  | _ => True

def fields : Message Int64 → Bytes
  | begin lsn t xid => [w64 lsn, wmicros t, w32 xid].flatten
  | commit flags lsn fin t => [[flags], w64 lsn, w64 fin, wmicros t].flatten
  | origin lsn name => [w64 lsn, wstring name].flatten
  | relation rel => rel.fields (rel.columns.1.flatMap Column.encode)
  | type _ id ns name => [w32 id, wstring ns, wstring name].flatten
  | insert _ rel new => [w32 rel, ['N'.toUInt8], wtuple new].flatten
  | update _ rel old new => [w32 rel, wold old, ['N'.toUInt8], wtuple new].flatten
  | delete _ rel old => [w32 rel, old.bytes].flatten
  | truncate _ cascade restart rels =>
      [be 4 rels.1.length, [flag cascade 1 ||| flag restart 2], rels.1.flatMap w32].flatten
  | logicalMessage _ tx lsn pfx content => [[flag tx 1], w64 lsn, wstring pfx, wbytes content].flatten
  | streamStart xid first => [w32 xid, [flag first 1]].flatten
  | streamStop => []
  | streamCommit xid flags lsn fin t => [w32 xid, [flags], w64 lsn, w64 fin, wmicros t].flatten
  | streamAbort xid sub aborted => [w32 xid, w32 sub, wabort aborted].flatten
  | beginPrepare lsn fin t xid gid => [w64 lsn, w64 fin, wmicros t, w32 xid, wstring gid].flatten
  | prepare flags lsn fin t xid gid | commitPrepared flags lsn fin t xid gid
  | streamPrepare flags lsn fin t xid gid => wprepared flags lsn fin [t] xid gid
  | rollbackPrepared flags lsn fin t t' xid gid => wprepared flags lsn fin [t, t'] xid gid

def encode (inStream : Bool) (m : Message Int64) : Bytes := m.tag.byte :: (xidBytes inStream m.tag m.changeXid ++ m.fields)

/-- Whether the messages after this one belong to a streamed segment. -/
def inStreamAfter (inStream : Bool) : Message Int64 → Bool
  | streamStart .. => true
  | streamStop => false
  | _ => inStream

/-- Messages outside a streamed segment have no transaction id of their own. -/
def Framed : Bool → List (Message Int64) → Prop
  | _, [] => True
  | inStream, m :: ms => (inStream = false → m.changeXid = 0) ∧ Framed (m.inStreamAfter inStream) ms

def encodeAll : Bool → List (Message Int64) → List Bytes
  | _, [] => []
  | inStream, m :: ms => m.encode inStream :: encodeAll (m.inStreamAfter inStream) ms

lemma sequence_encode (cols : List Column) : Sequence Column.Lays cols (cols.flatMap Column.encode) := by
  induction cols with
  | nil => exact .nil
  | cons c cols ih =>
    refine .cons ⟨flag c.key 1, ?_, rfl⟩ ih
    cases c.key <;> rfl

lemma fields_laid (m : Message Int64) : Laid m.changeXid m.tag m m.fields := by
  cases m with
  | relation rel => exact .relation rfl (sequence_encode _)
  | truncate xid cascade restart rels =>
    refine .truncate ?_ ?_ <;> cases cascade <;> cases restart <;> rfl
  | logicalMessage xid tx lsn pfx content =>
    refine .logicalMessage ?_
    cases tx <;> rfl
  | streamStart xid first =>
    refine .streamStart ?_
    cases first <;> rfl
  | _ => constructor

lemma encode_lays {inStream : Bool} {m : Message Int64} (h : inStream = false → m.changeXid = 0) :
    m.Lays inStream (m.encode inStream) := by
  refine ⟨m.tag, m.changeXid, m.fields, fun hxid => ?_, rfl, m.fields_laid⟩
  rcases Bool.and_eq_false_iff.mp hxid with hout | htag
  · exact h hout
  · cases m <;> first | rfl | cases htag

end Message

end PgShard.Pgoutput
