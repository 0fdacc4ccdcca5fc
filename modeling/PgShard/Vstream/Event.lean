import PgShard.Key.Literal

/-!
# The events of a change stream

The router assembles one shard's change events into units, one whole transaction or one standalone
event each, and sends the units of all shards to the consumer as one stream, with a vector
of positions after each.
-/

namespace PgShard.Vstream

open Key

structure Shard where
  set : String
  id : Int
  deriving DecidableEq

structure Column where
  name : String
  typeOid : Nat
  typeModifier : Int
  key : Bool
  deriving DecidableEq

/-- A decoded relation. -/
structure RelMeta where
  schema : String
  table : String
  identity : String
  columns : List Column
  deriving DecidableEq

namespace RelMeta

def signature (m : RelMeta) : String :=
  m.columns.foldl (fun s c => s ++ "|" ++ c.name ++ ":" ++ toString c.typeOid ++ ":" ++
    toString c.typeModifier ++ ":" ++ toString c.key) m.identity

/-- What a relation is known by on the stream. -/
def name (m : RelMeta) : String := m.schema ++ "." ++ m.table

end RelMeta

inductive RowKind
  | unspecified
  | insert
  | update
  | delete
  deriving DecidableEq

structure VColumn where
  null : Bool
  value : Bytes
  unchangedToast : Bool
  deriving DecidableEq

/-- How far a shard's initial copy is. -/
structure CopyState where
  shard : Shard
  done : List String
  current : Option (String × String × Bytes)
  deriving DecidableEq

/-- A vector of positions: a shard that is missing has none. -/
structure VPosition where
  generation : Nat
  fingerprint : Nat
  shards : List (Shard × Nat)
  copyState : List CopyState
  deriving DecidableEq

inductive ErrorCode
  | internal
  | resharded
  | shardUnavailable
  | positionTooOld
  | transactionTooLarge
  deriving DecidableEq

/-- What a consumer receives. -/
inductive VEvent
  | begin (shard : Shard) (xid : Nat) (commitTs : Int) (gid : String)
  | commit (shard : Shard) (lsn endLsn : Nat)
  | prepare (shard : Shard) (gid : String) (lsn : Nat)
  | commitPrepared (shard : Shard) (gid : String) (lsn : Nat)
  | rollbackPrepared (shard : Shard) (gid : String) (lsn : Nat)
  | row (shard : Shard) (schema table : String) (kind : RowKind) (oldIsKey : Bool) (old new : Option (List VColumn))
  | truncate (shard : Shard) (tables : List (String × String)) (cascade restartIdentity : Bool)
  | message (shard : Shard) (pfx : String) (content : Bytes) (transactional : Bool)
  | relation (m : RelMeta)
  | vgtid (position : VPosition)
  | heartbeat (position : VPosition)
  | copyCompleted
  | journal (generation : Nat) (participants : List Shard) (targets : List (Shard × Nat))
  | error (code : ErrorCode) (shard : Option Shard)
  deriving DecidableEq

/-- An event of a unit, with the relations a consumer must have seen before it and the transaction it was
made in when that was streamed. -/
structure Item where
  event : VEvent
  rels : List RelMeta := []
  xid : Nat := 0
  deriving DecidableEq

/-- What a shard's reader hands the merger. `position` says that `endLSN` may become the shard's position
once the items were delivered. -/
structure StreamUnit where
  shard : Shard
  items : List Item := []
  endLSN : Nat := 0
  commitTS : Int := 0
  position : Bool := false
  copy : Option CopyState := none
  copyDone : Bool := false
  err : Option VEvent := none
  deriving DecidableEq

def StreamUnit.events (u : StreamUnit) : List VEvent := u.items.map Item.event

end PgShard.Vstream
