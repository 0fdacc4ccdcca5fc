import PgShard.Placement.Hash

/-!
# Where a moved row goes

A placement change copies a table into shadow tables on the serving shards and replays the changes its
sources make meanwhile. The router says which shards hold a row under the new placement, and a change
becomes upserts and deletes bound for them.
-/

namespace PgShard.Placer

open Key Placement Search

/-- One decoded row: `none` for NULL. An unchanged column is one that an update did not touch and did not
send. -/
structure Tuple where
  values : List (Option Bytes)
  unchanged : List Bool
  deriving DecidableEq, Repr

/-- A row change. An update may come without its old row. -/
inductive Change
  | insert (new : Tuple)
  | delete (old : Tuple)
  | update (old : Option Tuple) (new : Tuple)

inductive PlacementKind
  | unsharded
  | reference
  | sharded
  deriving DecidableEq, Repr

inductive RouteError
  | keyNotInRow
  | keyNull
  | notInteger (v : Bytes)
  | notUuid (v : Bytes)
  | blankPadded (typ : String)
  | unhashable (typ : String)
  | outsideRanges (id : Int)
  deriving DecidableEq, Repr

/-- `keyIndex` is the position of the shard key in the row and `keyType` its SQL type. -/
structure PlacementRouter where
  placement : PlacementKind
  home : Int
  ids : List Int
  ranges : List Range
  keyIndex : Int
  keyType : String

/-- `strconv.ParseInt` in base 10 of 64 bits. -/
def parseInt (v : Bytes) : Option Int :=
  let number (ds : Bytes) : Option Nat :=
    if ds = [] then none
    else ds.foldl (fun n c => match n, digit 10 c with
      | some n, some d => some (10 * n + d)
      | _, _ => none) (some 0)
  let bounded (i : Int) : Option Int := if -2 ^ 63 ≤ i ∧ i < 2 ^ 63 then some i else none
  match v with
  | 45 :: ds => (number ds).bind fun n => bounded (-n)
  | 43 :: ds => (number ds).bind fun n => bounded n
  | ds => (number ds).bind fun n => bounded n

/-- `hex.DecodeString`. -/
def hexDecode : Bytes → Option (List UInt8)
  | [] => some []
  | h :: l :: rest =>
    match hexVal h, hexVal l, hexDecode rest with
    | some hi, some lo, some bs => some ((hi <<< 4 ||| lo) :: bs)
    | _, _, _ => none
  | _ => none

/-- The text form of a shard key value, hashed as the router hashes the bound value. -/
def keyspaceIDOfText (v : Bytes) (typ : String) : Except RouteError Int :=
  let base := String.ofList (trimSpace (typ.toLower.toList.takeWhile (· ≠ '(')))
  if base ∈ ["bigint", "integer", "smallint", "int8", "int4", "int2"] then
    match parseInt v with
    | some n => .ok (keyspaceID (.int n))
    | none => .error (.notInteger v)
  else if base ∈ ["text", "character varying", "varchar", "name"] then .ok (keyspaceID (.text v))
  else if base ∈ ["character", "bpchar", "char"] then .error (.blankPadded typ)
  else if base = "uuid" then
    match hexDecode (v.filter (· ≠ 45)) with
    | some raw => if raw.length = 16 then .ok (keyspaceID (.uuid raw)) else .error (.notUuid v)
    | none => .error (.notUuid v)
  else .error (.unhashable typ)

namespace PlacementRouter

/-- Every shard that owns a copy of the table. -/
def holders (r : PlacementRouter) : List Int :=
  if r.placement = .unsharded then [r.home] else r.ids

/-- The shards a row belongs to. -/
def route (r : PlacementRouter) (row : List (Option Bytes)) : Except RouteError (List Int) :=
  match r.placement with
  | .unsharded => .ok [r.home]
  | .reference => .ok r.ids
  | .sharded =>
    if r.keyIndex < 0 then .error .keyNotInRow
    else
      match row[r.keyIndex.toNat]? with
      | none => .error .keyNotInRow
      | some none => .error .keyNull
      | some (some v) =>
        match keyspaceIDOfText v r.keyType with
        | .error e => .error e
        | .ok id =>
          match r.ids[least (fun i => r.ranges[i]?.any (id ≤ ·.stop)) 0 r.ranges.length]? with
          | some shard => .ok [shard]
          | none => .error (.outsideRanges id)

end PlacementRouter

/-- The columns in source order, the kind of identity of each ("a" is GENERATED ALWAYS), and the columns
of the primary key. -/
structure RowShape where
  columns : List String
  identity : List String
  pk : List String
  distinct : columns.Nodup
  pk_columns : ∀ k ∈ pk, k ∈ columns

namespace RowShape

variable (s : RowShape)

def identityAlways (i : Nat) : Bool := s.identity[i]? = some "a"

/-- An update gave a GENERATED ALWAYS column outside the primary key a new value. -/
def alwaysIdentityChanged (old : Option Tuple) (updated : Tuple) : Bool :=
  match old with
  | none => false
  | some old =>
    s.columns.zipIdx.any fun (c, i) =>
      s.identityAlways i && !(s.pk.contains c) &&
        match old.values[i]?, updated.values[i]? with
        | some x, some y => x ≠ y
        | _, _ => false

def pkIndexes : List Nat := s.pk.map fun k => s.columns.idxOf k

/-- The values of the primary key. -/
def pkKey (row : List (Option Bytes)) : List (Option Bytes) := s.pkIndexes.map fun i => row.getD i none

end RowShape

def samePK (shape : RowShape) (a b : Tuple) : Bool := shape.pkKey a.values = shape.pkKey b.values

/-- What one operation does. A row with unchanged columns is rendered at once, the others join the
statements of their neighbours. -/
inductive OpKind
  | up (row : Tuple)
  | del (row : Tuple)
  | sql (row : Tuple)
  deriving DecidableEq, Repr

/-- One operation bound for one shard. -/
structure ApplyOp where
  shard : Int
  kind : OpKind
  deriving DecidableEq, Repr

/-- One row's upsert for one shard. -/
def upsertOps (shard : Int) (row : Tuple) : List ApplyOp :=
  if row.unchanged.contains true then [⟨shard, .sql row⟩] else [⟨shard, .up row⟩]

/-- The new row of an update, its unchanged columns taken from the old one. -/
def filled (old : Option Tuple) (new : Tuple) : Tuple :=
  match old with
  | none => new
  | some old =>
    ⟨new.values.zipIdx.map fun (v, i) => if new.unchanged.getD i false then old.values.getD i none else v,
      new.unchanged.map fun _ => false⟩

/-- What the shadow tables need of a change. A row that moves is deleted where it was and inserted where
it goes. -/
def routeChange (r : PlacementRouter) (shape : RowShape) : Change → Except RouteError (List ApplyOp)
  | .insert new =>
    match r.route new.values with
    | .error e => .error e
    | .ok targets => .ok (targets.flatMap fun t => upsertOps t new)
  | .delete old =>
    let targets := (r.route old.values).toOption.getD r.holders
    .ok (targets.map fun t => ⟨t, .del old⟩)
  | .update old new =>
    let new := filled old new
    match r.route new.values with
    | .error e => .error e
    | .ok newTargets =>
      let before := old.getD new
      let oldTargets := (r.route before.values).toOption.getD r.holders
      let replace := !samePK shape before new || shape.alwaysIdentityChanged old new
      .ok ((oldTargets.filter (!newTargets.contains ·)).map (fun t => ⟨t, .del before⟩) ++
        newTargets.flatMap fun t =>
          (if replace && oldTargets.contains t then [⟨t, .del before⟩] else []) ++ upsertOps t new)

end PgShard.Placer
