import PgShard.Planner.Decide
import PgShard.Placement.Hash

/-!
# Bound parameters as shard keys

The value of a parameter is decoded by the type the client declared for it, or by the key
column's when it declared none, and then cast as the statement casts it.
-/

namespace PgShard.Key

open Planner

def oidInt8 : Nat := 20
def oidInt2 : Nat := 21
def oidInt4 : Nat := 23
def oidText : Nat := 25
def oidBpchar : Nat := 1042
def oidVarchar : Nat := 1043
def oidUnknown : Nat := 705
def oidName : Nat := 19
def oidUUID : Nat := 2950

/-- Why a parameter is no shard key. -/
inductive ParamError where
  | notBound (n : Nat)
  | isNull
  | ambiguous
  | width (type : String) (bytes : Nat)
  | unsupported (oid : Nat) (binary : Bool)
  | integer (text : Bytes) (e : IntError)
  | uuid (text : Bytes)
  | castInteger (text : Bytes) (e : IntError)
  | castUUID (text : Bytes)
  | cast
  deriving DecidableEq, Repr

/-- One Bind message. A type that is missing or 0 was not declared; a missing format is
text, and one format stands for all. -/
structure BindParams where
  oids : List Nat := []
  formats : List Nat := []
  values : List (Option Bytes)
  deriving DecidableEq, Repr

namespace BindParams

def oid (b : BindParams) (i : Nat) : Nat := b.oids.getD i 0

def format (b : BindParams) (i : Nat) : Nat :=
  match b.formats with
  | [] => 0
  | [f] => f
  | fs => fs.getD i 0

end BindParams

/-- A parameter whose type PostgreSQL takes from the context. -/
def untyped (oid : Nat) : Bool := oid = 0 || oid = oidUnknown

/-- The type an untyped parameter takes from the key column. -/
def inferredOID (columnType : String) : Nat :=
  let base := (parseCharType columnType).1
  if ["text", "character varying", "varchar", "name", "character", "bpchar", "char"].contains base then
    oidText
  else if ["bigint", "int8"].contains base then oidInt8
  else if ["integer", "int4", "int"].contains base then oidInt4
  else if ["smallint", "int2"].contains base then oidInt2
  else if base = "uuid" then oidUUID
  else 0

/-- A number of the network's byte order. -/
def bigEndian (b : Bytes) : Nat := b.foldl (fun n c => 256 * n + c.toNat) 0

/-- The number read as a signed one of the width. -/
def signed (bits n : Nat) : Int := if n < 2 ^ (bits - 1) then n else n - 2 ^ bits

def decodeBinary (oid : Nat) (raw : Bytes) : Except ParamError Value :=
  let integer (type : String) (bytes : Nat) : Except ParamError Value :=
    if raw.length ≠ bytes then .error (.width type raw.length)
    else .ok (.int (signed (8 * bytes) (bigEndian raw)))
  if oid = oidInt8 then integer "int8" 8
  else if oid = oidInt4 then integer "int4" 4
  else if oid = oidInt2 then integer "int2" 2
  else if untyped oid then
    if raw.length = 8 ∨ raw.length = 4 ∨ raw.length = 2 then
      .ok (.int (signed (8 * raw.length) (bigEndian raw)))
    else .error .ambiguous
  else if oid = oidUUID then
    if raw.length ≠ 16 then .error (.width "uuid" raw.length) else .ok (.uuid raw)
  else if oid = oidText ∨ oid = oidVarchar ∨ oid = oidName ∨ oid = oidBpchar then .ok (.text raw)
  else .error (.unsupported oid true)

def decodeText (oid : Nat) (raw : Bytes) : Except ParamError Value :=
  if oid = oidInt8 ∨ oid = oidInt4 ∨ oid = oidInt2 then
    match pgStrToInt64 raw with
    | .error e => .error (.integer raw e)
    | .ok i => .ok (.int i)
  else if oid = oidUUID then
    match parseUUID raw with
    | none => .error (.uuid raw)
    | some u => .ok (.uuid u)
  else if oid = oidText ∨ oid = oidVarchar ∨ oid = oidName ∨ oid = oidBpchar then .ok (.text raw)
  else if untyped oid then
    match pgStrToInt64 raw with
    | .ok _ => .error .ambiguous
    | .error _ => .ok (.text raw)
  else .error (.unsupported oid false)

/-- The wire value of a parameter, by its type. Format 1 is binary. -/
def decodeParam (oid format : Nat) (raw : Bytes) : Except ParamError Value :=
  if format = 1 then decodeBinary oid raw else decodeText oid raw

/-- An integer in decimal. -/
def formatInt (i : Int) : Bytes := bytesOf (toString i)

/-- The statement's cast over the decoded value. -/
def applyCast (v : Value) (hint : TypeHint) : Except ParamError Value :=
  match hint, v with
  | .none, v => .ok v
  | .int, .int i => .ok (.int i)
  | .int, .text b =>
    match pgStrToInt64 b with
    | .error e => .error (.castInteger b e)
    | .ok i => .ok (.int i)
  | .text, .text b => .ok (.text b)
  | .text, .int i => .ok (.text (formatInt i))
  | .text, .uuid u => .ok (.text (uuidText u))
  | .uuid, .uuid u => .ok (.uuid u)
  | .uuid, .text b =>
    match parseUUID b with
    | none => .error (.castUUID b)
    | some u => .ok (.uuid u)
  | _, _ => .error .cast

/-- A bound value as a shard key: decoded by its type, then cast. A cast of an untyped
parameter types it, and leaves nothing to cast. -/
def decodeShardKey (oid : Nat) (hint : TypeHint) (format : Nat) (raw : Bytes) : Except ParamError Value :=
  if untyped oid then
    let oid := match hint with
      | .int => oidInt8
      | .text => oidText
      | .uuid => oidUUID
      | .none => oid
    decodeParam oid format raw
  else (decodeParam oid format raw).bind fun v => applyCast v hint

/-- The value of parameter `$n` compared with a key column of the type. -/
def BindParams.shardKey (b : BindParams) (n : Nat) (hint : TypeHint) (columnType : String) : Except ParamError Value :=
  match n with
  | 0 => .error (.notBound n)
  | i + 1 =>
    match b.values[i]? with
    | none => .error (.notBound n)
    | some none => .error .isNull
    | some (some raw) =>
      let oid := if untyped (b.oid i) then inferredOID columnType else b.oid i
      decodeShardKey oid hint (b.format i) raw

/-- The message of a refusal; the texts of values are quoted as they are. -/
def ParamError.text : ParamError → String
  | .notBound n => "parameter $" ++ toString n ++ " was not bound"
  | .isNull => "shard key must not be NULL"
  | .ambiguous => "value is untyped and looks numeric: cast it to int8 or text"
  | .width type bytes => type ++ " parameter has " ++ toString bytes ++ " bytes"
  | .unsupported oid true =>
    "binary parameter of type oid " ++ toString oid ++ " is not a supported shard key"
  | .unsupported oid false =>
    "parameter of type oid " ++ toString oid ++ " is not a supported shard key"
  | .integer b e => "integer parameter \"" ++ textOf b ++ "\": " ++ intError b e
  | .uuid b => "uuid parameter \"" ++ textOf b ++ "\" is not a uuid"
  | .castInteger b e => "parameter \"" ++ textOf b ++ "\" cast to an integer: " ++ intError b e
  | .castUUID b => "parameter \"" ++ textOf b ++ "\" cast to a uuid is not a uuid"
  | .cast => "parameter cannot be cast to a shard key of the statement's type"
where
  intError (b : Bytes) : IntError → String
    | .invalid => "invalid input syntax for type bigint: \"" ++ textOf b ++ "\""
    | .outOfRange => "value \"" ++ textOf b ++ "\" is out of range for type bigint"

/-- Where the planner finds keys: the hash and the range set, and one Bind message. -/
def routerKeys (ranges : List Placement.Range) (bind : BindParams) : Keys where
  locate v :=
    match Placement.locate ranges (Placement.keyspaceID v) with
    | some shard => .ok shard
    | none => .error ⟨"57P03", "snapshot: keyspace id not covered by any range", ""⟩
  param n hint columnType :=
    match bind.shardKey n hint columnType with
    | .ok v => .ok v
    | .error e => .error (notYet ("parameter $" ++ toString n ++ " cannot be a shard key: " ++ e.text)
        "shard keys are int8 or text values; cast an untyped parameter ($1::int8 or $1::text)")

end PgShard.Key
