import PgShard.Pgoutput.Message

/-!
# The decoder

A reader of the source keeps its first error and returns zero values after it; here it stops at the error. The
timestamps of a message become instants once all of it is read.
-/

namespace PgShard.Pgoutput

open Wire

inductive DecodeError
  | short
  | insertKind (k : UInt8)
  | updateKind (k : UInt8)
  | deleteKind (k : UInt8)
  | columnKind (k : UInt8)
  | unknownType (b : UInt8)
  deriving DecidableEq

abbrev Read := Reader DecodeError

namespace Read

def uint8 : Read UInt8 := Wire.uint8 .short

def uint32 : Read UInt32 := Wire.uint32 .short

def uint64 : Read UInt64 := Wire.uint64 .short

def string : Read CString := Wire.cstring .short

def bytes : Read (Counted 4 UInt8) := Wire.bytes32 .short

/-- Microseconds since the start of 2000. -/
def micros : Read Int64 := do
  let v ← uint64
  return v.toInt64

def column : Read Column := do
  let flags ← uint8
  let name ← string
  let typeOID ← uint32
  let typeMod ← uint32
  return { key := flags &&& 1 != 0, name, typeOID, typeMod := typeMod.toInt32 }

def tupleColumn : Read TupleColumn := do
  let kind ← uint8
  if kind = 'n'.toUInt8 then return .null
  else if kind = 'u'.toUInt8 then return .unchanged
  else if kind = 't'.toUInt8 then
    let data ← bytes
    return .text data
  else if kind = 'b'.toUInt8 then
    let data ← bytes
    return .binary data
  else throw (.columnKind kind)

def tuple : Read Tuple := counted16 .short tupleColumn

/-- The kind before the new row of an update, after the image of the old row if there is one. -/
def oldImage (k : UInt8) : Read (Option Image × UInt8) := do
  if k = 'K'.toUInt8 then
    let t ← tuple
    let k' ← uint8
    return (some (.key t), k')
  else if k = 'O'.toUInt8 then
    let t ← tuple
    let k' ← uint8
    return (some (.old t), k')
  else return (none, k)

def relation (xid : UInt32) : Read Relation := do
  let id ← uint32
  let nspace ← string
  let name ← string
  let replicaIdentity ← uint8
  let columns ← counted16 .short column
  return { xid, id, nspace, name, replicaIdentity, columns }

def insert (xid : UInt32) : Read (Message Int64) := do
  let rel ← uint32
  let k ← uint8
  if k = 'N'.toUInt8 then
    let new ← tuple
    return .insert xid rel new
  else throw (.insertKind k)

def update (xid : UInt32) : Read (Message Int64) := do
  let rel ← uint32
  let k ← uint8
  let old ← oldImage k
  if old.2 = 'N'.toUInt8 then
    let new ← tuple
    return .update xid rel old.1 new
  else throw (.updateKind old.2)

def delete (xid : UInt32) : Read (Message Int64) := do
  let rel ← uint32
  let k ← uint8
  if k = 'K'.toUInt8 then
    let t ← tuple
    return .delete xid rel (.key t)
  else if k = 'O'.toUInt8 then
    let t ← tuple
    return .delete xid rel (.old t)
  else throw (.deleteKind k)

def truncate (xid : UInt32) : Read (Message Int64) := do
  let n ← uint32
  let opts ← uint8
  let ids ← times uint32 n.toNat
  return .truncate xid (opts &&& 1 != 0) (opts &&& 2 != 0) ⟨ids.1, by rw [ids.2]; exact n.toNat_lt⟩

/-- The LSN and the time of a streamed transaction's abort, sent by servers that apply streams in parallel. -/
def abort : Read (Option (UInt64 × Int64)) := do
  let data ← get
  if 16 ≤ data.length then
    let lsn ← uint64
    let t ← micros
    return some (lsn, t)
  else return none

def commit (make : UInt8 → UInt64 → UInt64 → Int64 → Message Int64) : Read (Message Int64) := do
  let flags ← uint8
  let lsn ← uint64
  let fin ← uint64
  let t ← micros
  return make flags lsn fin t

def prepared (make : UInt8 → UInt64 → UInt64 → Int64 → UInt32 → CString → Message Int64) : Read (Message Int64) := do
  let flags ← uint8
  let lsn ← uint64
  let fin ← uint64
  let t ← micros
  let xid ← uint32
  let gid ← string
  return make flags lsn fin t xid gid

def body (xid : UInt32) : Tag → Read (Message Int64)
  | .begin => do
    let lsn ← uint64
    let t ← micros
    let xid ← uint32
    return .begin lsn t xid
  | .commit => commit .commit
  | .origin => do
    let lsn ← uint64
    let name ← string
    return .origin lsn name
  | .relation => do
    let rel ← relation xid
    return .relation rel
  | .type => do
    let id ← uint32
    let nspace ← string
    let name ← string
    return .type xid id nspace name
  | .insert => insert xid
  | .update => update xid
  | .delete => delete xid
  | .truncate => truncate xid
  | .logicalMessage => do
    let flags ← uint8
    let lsn ← uint64
    let pfx ← string
    let content ← bytes
    return .logicalMessage xid (flags &&& 1 != 0) lsn pfx content
  | .streamStart => do
    let xid ← uint32
    let first ← uint8
    return .streamStart xid (first == 1)
  | .streamStop => return .streamStop
  | .streamCommit => do
    let xid ← uint32
    commit (.streamCommit xid)
  | .streamAbort => do
    let xid ← uint32
    let subXid ← uint32
    let aborted ← abort
    return .streamAbort xid subXid aborted
  | .beginPrepare => do
    let lsn ← uint64
    let fin ← uint64
    let t ← micros
    let xid ← uint32
    let gid ← string
    return .beginPrepare lsn fin t xid gid
  | .prepare => prepared .prepare
  | .commitPrepared => prepared .commitPrepared
  | .rollbackPrepared => do
    let flags ← uint8
    let lsn ← uint64
    let fin ← uint64
    let t ← micros
    let t' ← micros
    let xid ← uint32
    let gid ← string
    return .rollbackPrepared flags lsn fin t t' xid gid
  | .streamPrepare => prepared .streamPrepare

/-- The transaction id of a change, sent in a streamed segment only. -/
def changeXid (inStream : Bool) (t : Tag) : Read UInt32 := if inStream && t.streamed then uint32 else pure 0

def kind (inStream : Bool) (b : UInt8) : Read (Message Int64) :=
  match Tag.ofByte b with
  | none => throw (.unknownType b)
  | some t => do
    let xid ← changeXid inStream t
    body xid t

/-- One message; `inStream` is whether it belongs to a streamed segment. -/
def message (inStream : Bool) : Read (Message Int64) := do
  let b ← uint8
  kind inStream b

end Read

/-- Nanoseconds since the start of 2000, as `time.Duration` computes them: it is an `int64`. -/
def pgTime (micros : Int64) : Int := (micros * 1000).toInt

structure Decoder where
  relations : UInt32 → Option Relation
  streamXid : UInt32
  inStream : Bool

namespace Decoder

def new : Decoder := { relations := fun _ => none, streamXid := 0, inStream := false }

def relation (d : Decoder) (id : UInt32) : Option Relation := d.relations id

/-- The decoder once a message is read. -/
def after {T : Type} (d : Decoder) : Message T → Decoder
  | .relation rel => { d with relations := fun id => if id = rel.id then some rel else d.relations id }
  | .streamStart xid _ => { d with inStream := true, streamXid := xid }
  | .streamStop => { d with inStream := false, streamXid := 0 }
  | _ => d

/-- The bytes that are left once the message is read are not looked at. -/
def decode (d : Decoder) (data : Bytes) : Except DecodeError (Message Int × Decoder) :=
  match Read.message d.inStream data with
  | .ok (m, _) => .ok (m.map pgTime, d.after m)
  | .error e => .error e

/-- The messages of one slot, in order, up to the first that is refused. -/
def decodeAll (d : Decoder) : List Bytes → Except DecodeError (List (Message Int))
  | [] => .ok []
  | data :: datas => do
    let (m, d') ← d.decode data
    let ms ← d'.decodeAll datas
    return m :: ms

end Decoder

end PgShard.Pgoutput
