import PgShard.Key.Params

/-!
# What PostgreSQL stores for an operand

The casts of PostgreSQL between the types a shard key can have, the cast of an INSERT to the
column's type, and the hash of what is stored. The input functions of bigint and uuid are the
ones the router ports.
-/

namespace PgShard.Postgres

open Planner Key Placement

inductive PgType where
  | int2
  | int4
  | int8
  | uuid
  | text
  | varchar
  | bpchar
  | name
  | char
  deriving DecidableEq, Repr

/-- A value. A text of type `bpchar` carries its padding. -/
inductive Datum where
  | int (i : Int)
  | uuid (u : Bytes)
  | text (b : Bytes)
  | char (c : UInt8)
  deriving DecidableEq, Repr

/-- The families within which casts keep the value. The one-byte `"char"` is in none. -/
inductive Family where
  | int
  | uuid
  | text
  deriving DecidableEq, Repr

namespace PgType

def family : PgType → Option Family
  | int2 | int4 | int8 => some .int
  | uuid => some .uuid
  | text | varchar | bpchar | name => some .text
  | char => none

/-- Half the number of values of an integer type. -/
def bound : PgType → Int
  | int2 => 2 ^ 15
  | int4 => 2 ^ 31
  | _ => 2 ^ 63

def inRange (ty : PgType) (i : Int) : Bool := -ty.bound ≤ i && i < ty.bound

/-- The first bytes of a name, whole characters only. -/
def clip (b : Bytes) : Bytes :=
  if b.length ≤ nameDataLen then b
  else
    let kept := b.take (nameDataLen + 1)
    (kept.reverse.dropWhile isContinuation).reverse.dropLast

def isOctal (c : UInt8) : Bool := 48 ≤ c.toNat && c.toNat ≤ 55

/-- The byte of a `"char"`: the first one of the text, or the one an escape spells. -/
def firstChar : Bytes → UInt8
  | [92, a, b, c] =>
    if isOctal a && isOctal b && isOctal c then ((a - 48) <<< 6) + ((b - 48) <<< 3) + (c - 48) else 92
  | [] => 0
  | c :: _ => c

/-- The input function of a type, without a length. -/
def input (ty : PgType) (b : Bytes) : Option Datum :=
  match ty with
  | int2 | int4 | int8 =>
    match pgStrToInt64 b with
    | .ok i => if ty.inRange i then some (.int i) else none
    | .error _ => none
  | uuid => (parseUUID b).map .uuid
  | text | varchar | bpchar => some (.text b)
  | name => some (.text (clip b))
  | char => some (.char (firstChar b))

/-- The binary input function of a type. -/
def recv (ty : PgType) (b : Bytes) : Option Datum :=
  match ty with
  | int2 => if b.length = 2 then some (.int (signed 16 (bigEndian b))) else none
  | int4 => if b.length = 4 then some (.int (signed 32 (bigEndian b))) else none
  | int8 => if b.length = 8 then some (.int (signed 64 (bigEndian b))) else none
  | uuid => if b.length = 16 then some (.uuid b) else none
  | text | varchar | bpchar => some (.text b)
  | name => if b.length ≤ nameDataLen then some (.text b) else none
  | char => if b.length = 1 then some (.char (firstChar b)) else none

/-- A bound value. Format 1 is binary. -/
def decode (ty : PgType) (format : Nat) (raw : Bytes) : Option Datum :=
  if format = 1 then ty.recv raw else ty.input raw

def ofOid (oid : Nat) : Option PgType :=
  if oid = oidInt8 then some int8
  else if oid = oidInt4 then some int4
  else if oid = oidInt2 then some int2
  else if oid = oidUUID then some uuid
  else if oid = oidText then some text
  else if oid = oidVarchar then some varchar
  else if oid = oidBpchar then some bpchar
  else if oid = oidName then some name
  else none

def ofName (s : String) : Option PgType :=
  if s = "int8" ∨ s = "bigint" then some int8
  else if s = "int4" ∨ s = "integer" ∨ s = "int" then some int4
  else if s = "int2" ∨ s = "smallint" then some int2
  else if s = "uuid" then some uuid
  else if s = "text" then some text
  else if s = "varchar" then some varchar
  else if s = "bpchar" ∨ s = "character" then some bpchar
  else if s = "name" then some name
  else if s = "char" then some char
  else none

end PgType

/-- The output function. A `"char"` beyond ASCII is spelled as an escape. -/
def Datum.output : Datum → Bytes
  | .int i => formatInt i
  | .uuid u => uuidText u
  | .text b => b
  | .char c =>
    if c = 0 then []
    else if c < 128 then [c]
    else [92, 48 + c / 64, 48 + c / 8 % 8, 48 + c % 8]

/-- The type a cast names, and its length. -/
def named (tn : TypeName) : Option (PgType × Option Nat) :=
  match tn.names.getLast? with
  | none => none
  | some last =>
    match PgType.ofName last.toLower, tn.typmods with
    | some ty, [] => some (ty, none)
    | some ty, [some (.ival n)] =>
      if (ty = .varchar ∨ ty = .bpchar) ∧ 1 ≤ n then some (ty, some n.toNat) else none
    | _, _ => none

/-- An explicit cast, its length aside. Blanks at the end of a `bpchar` are not part of the
text it is cast to. -/
def explicitCast (source target : PgType) (d : Datum) : Option Datum :=
  match d, target.family with
  | .int i, some .int => if target.inRange i then some (.int i) else none
  | .int i, some .text => target.input (formatInt i)
  | .int i, none =>
    if source = .int4 ∧ -128 ≤ i ∧ i < 128 then some (.char (UInt8.ofNat (i % 256).toNat)) else none
  | .uuid u, some .uuid => some (.uuid u)
  | .uuid u, some .text => target.input (uuidText u)
  | .text b, some .text =>
    target.input (if source = .bpchar ∧ target ≠ .bpchar then trimRight b else b)
  | .text b, some .int => target.input b
  | .text b, some .uuid => target.input b
  | .text b, none => some (.char (PgType.firstChar (if source = .bpchar then trimRight b else b)))
  | .char c, some .text => target.input (Datum.char c).output
  | .char c, some .int => if target = .int4 then some (.int (signed 8 c.toNat)) else none
  | .char c, none => some (.char c)
  | _, _ => none

/-- A text brought to the length of its type. Without an explicit cast only blanks may be cut. -/
def coerceLength (explicit : Bool) (ty : PgType) (length : Option Nat) (d : Datum) : Option Datum :=
  match d, length with
  | .text b, some n =>
    if runeCount b ≤ n then
      some (.text (if ty = .bpchar then b ++ List.replicate (n - runeCount b) 32 else b))
    else if explicit || (dropRunes n b).all (· == 32) then some (.text (takeRunes n b))
    else none
  | d, _ => some d

/-- The type and value of an expression; the type is `none` for a literal that has none yet.
A parameter that was declared without a type takes that of its context. -/
def eval (bind : BindParams) (context : PgType) : Node → Option (Option PgType × Datum)
  | .aConst (.ival i) => some (some .int4, .int i)
  | .aConst (.fval s) =>
    match pgStrToInt64 (bytesOf s) with
    | .ok i => some (some .int8, .int i)
    | .error _ => none
  | .aConst (.sval s) => some (none, .text (bytesOf s))
  | .paramRef (i + 1) =>
    match bind.values[i]? with
    | some (some raw) =>
      let ty := if untyped (bind.oid i) then some context else PgType.ofOid (bind.oid i)
      ty.bind fun ty => (ty.decode (bind.format i) raw).map fun d => (some ty, d)
    | _ => none
  | .typeCast arg tn =>
    match named tn with
    | none => none
    | some (ty, length) =>
      match eval bind ty arg with
      | none => none
      | some (source, d) =>
        let cast := match source with
          | none => ty.input d.output
          | some source => explicitCast source ty d
        (cast.bind (coerceLength true ty length)).map fun d => (some ty, d)
  | _ => none

/-- The column of a shard key. -/
inductive Column where
  | int2
  | int4
  | int8
  | uuid
  | text
  | varchar (length : Option Nat)
  | character (length : Option Nat)
  deriving DecidableEq, Repr

namespace Column

def type : Column → PgType
  | int2 => .int2
  | int4 => .int4
  | int8 => .int8
  | uuid => .uuid
  | text => .text
  | varchar _ => .varchar
  | character _ => .bpchar

def length : Column → Option Nat
  | varchar n | character n => n
  | _ => none

def family : Column → Family
  | int2 | int4 | int8 => .int
  | uuid => .uuid
  | text | varchar _ | character _ => .text

/-- The type as the shards spell it. -/
def spelling : Column → String
  | int2 => "smallint"
  | int4 => "integer"
  | int8 => "bigint"
  | uuid => "uuid"
  | text => "text"
  | varchar none => "character varying"
  | varchar (some n) => "character varying" ++ "(" ++ toString n ++ ")"
  | character none => "bpchar"
  | character (some n) => "character" ++ "(" ++ toString n ++ ")"

def isCharacter : Column → Bool
  | character _ => true
  | _ => false

end Column

/-- The cast of a value to the type of the column it is assigned to. A text is not assigned to
an integer or a uuid, everything is to a text. -/
def assignCast (source target : PgType) (d : Datum) : Option Datum :=
  match d, target.family with
  | .int _, some .int | .uuid _, some .uuid | _, some .text => explicitCast source target d
  | _, _ => none

/-- What the column stores of a value. -/
def assign (col : Column) (source : Option PgType) (d : Datum) : Option Datum :=
  let cast := match source with
    | none => col.type.input d.output
    | some source => assignCast source col.type d
  cast.bind (coerceLength false col.type col.length)

/-- What an INSERT stores in the column for an operand; `none` when it fails. -/
def stores (col : Column) (bind : BindParams) (node : Node) : Option Datum :=
  (eval bind col.type node).bind fun (source, d) => assign col source d

/-- The position of a stored key: each type has its own hash, and that of `character(n)` does
not see the padding. -/
def storedID (col : Column) (d : Datum) : Int :=
  match col, d with
  | .int2, .int i => position (hashInt2Extended i partitionSeed)
  | .int4, .int i => position (hashInt4Extended i partitionSeed)
  | .int8, .int i => position (hashInt8Extended i partitionSeed)
  | .character _, .text b => position (hashBytesExtended (trimRight b) partitionSeed)
  | _, .uuid u => position (hashBytesExtended u partitionSeed)
  | _, d => position (hashBytesExtended d.output partitionSeed)

end PgShard.Postgres
