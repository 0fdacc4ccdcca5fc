import PgShard.Key.Literal

/-!
# The key column's own type

The router hashes the value the shard will store, so a key is normalised by the type the
controller recorded for its column, spelled as the shard spells it.
-/

namespace PgShard.Key

/-- The value of a hexadecimal digit. -/
def hexVal (c : UInt8) : Option UInt8 := (digit 16 c).map UInt8.ofNat

/-- The bytes of a uuid from `b` on. A hyphen may follow every second byte but the last. -/
def uuidBytes : Nat → Bytes → Option (List UInt8 × Bytes)
  | 0, s => some ([], s)
  | left + 1, s =>
    match s with
    | h :: l :: rest =>
      match hexVal h, hexVal l with
      | some hi, some lo =>
        let rest := match rest with
          | 45 :: rest' => if left % 2 = 0 ∧ left ≠ 0 then rest' else 45 :: rest'
          | rest' => rest'
        (uuidBytes left rest).map fun (bs, end_) => ((hi <<< 4 ||| lo) :: bs, end_)
      | _, _ => none
    | _ => none

/-- PostgreSQL's reading of a uuid: braces are optional, and so is each hyphen. -/
def parseUUID (s : Bytes) : Option (List UInt8) :=
  match s with
  | 123 :: rest =>
    match uuidBytes 16 rest with
    | some (bs, [125]) => some bs
    | _ => none
  | _ =>
    match uuidBytes 16 s with
    | some (bs, []) => some bs
    | _ => none

/-- One hexadecimal digit. -/
def hexDigit (n : UInt8) : UInt8 := if n.toNat < 10 then 48 + n else 87 + n

/-- The canonical text of a uuid. -/
def uuidText (bs : List UInt8) : Bytes :=
  bs.zipIdx.flatMap fun (c, i) =>
    (if i = 4 ∨ i = 6 ∨ i = 8 ∨ i = 10 then [(45 : UInt8)] else []) ++ [hexDigit (c >>> 4), hexDigit (c &&& 15)]

/-- Blanks trimmed from both ends of a type's name. -/
def trimSpace (cs : List Char) : List Char :=
  ((cs.dropWhile Char.isWhitespace).reverse.dropWhile Char.isWhitespace).reverse

/-- `strconv.Atoi`. -/
def atoi (cs : List Char) : Option Int :=
  let number (ds : List Char) : Option Nat :=
    if ds = [] ∨ !ds.all Char.isDigit then none
    else some (ds.foldl (fun n c => 10 * n + (c.toNat - 48)) 0)
  match cs with
  | '-' :: ds => (number ds).map fun n => -(n : Int)
  | '+' :: ds => (number ds).map fun n => (n : Int)
  | ds => (number ds).map fun n => (n : Int)

/-- A type name split into its base and its length. -/
def parseCharType (t : String) : String × Option Nat :=
  let t := trimSpace t.toLower.toList
  let base := t.takeWhile (· ≠ '(')
  match t.dropWhile (· ≠ '('), t.getLast? with
  | _ :: inside, some ')' =>
    match atoi inside.dropLast with
    | some (Int.ofNat n) => (String.ofList (trimSpace base), some n)
    | _ => (String.ofList (trimSpace base), none)
  | _, _ => (String.ofList t, none)

/-- Trailing blanks removed. -/
def trimRight (b : Bytes) : Bytes := (b.reverse.dropWhile (· == 32)).reverse

/-- The key as its column's type stores it. Only a text changes: a uuid column's becomes the
sixteen bytes, a `character(n)` one loses its trailing blanks, a `character varying(n)` one
loses blanks beyond its length. -/
def normaliseKey (v : Value) (columnType : String) : Value :=
  match v with
  | .text s =>
    match parseCharType columnType with
    | (base, n) =>
      if base = "uuid" then
        match parseUUID s with
        | some u => .uuid u
        | none => v
      else if base = "character" ∨ base = "bpchar" ∨ base = "char" then .text (trimRight s)
      else match n with
        | none => v
        | some n =>
          if base ≠ "character varying" then v
          else if runeCount s ≤ n then v
          else if (dropRunes n s).any (· ≠ 32) then v
          else .text (takeRunes n s)
  | v => v

end PgShard.Key
