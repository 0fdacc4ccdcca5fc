import PgShard.Planner.Tree

/-!
# Shard key operands

What the planner reads off an expression that a shard key is compared with, or that an
INSERT gives it: a typed literal or a bind parameter, with the casts around it.
-/

namespace PgShard

/-- A refusal the client sees. -/
structure Refusal where
  code : String
  message : String
  hint : String := ""
  deriving DecidableEq, Repr

/-- The 0A000 refusal every unsupported shape reports. -/
def notYet (msg hint : String) : Refusal := ⟨"0A000", msg, hint⟩

end PgShard

namespace PgShard.Key

open Planner

/-- A string of the program: bytes, UTF-8 when the client sent it. -/
abbrev Bytes := List UInt8

def bytesOf (s : String) : Bytes := s.toUTF8.toList

/-- The bytes as text, for a message. -/
def textOf (b : Bytes) : String := (String.fromUTF8? ⟨b.toArray⟩).getD ""

/-- A byte of UTF-8 that continues a character. -/
def isContinuation (c : UInt8) : Bool := 128 ≤ c.toNat && c.toNat < 192

/-- The number of characters. -/
def runeCount (b : Bytes) : Nat := (b.filter fun c => !isContinuation c).length

/-- The first `n` characters. -/
def takeRunes : Nat → Bytes → Bytes
  | _, [] => []
  | n, c :: rest =>
    if isContinuation c then c :: takeRunes n rest
    else match n with
      | 0 => []
      | n + 1 => c :: takeRunes n rest

/-- What follows the first `n` characters. -/
def dropRunes (n : Nat) (b : Bytes) : Bytes := b.drop (takeRunes n b).length

/-- The bytes C's `isspace` accepts in the C locale. -/
def isCSpace (c : UInt8) : Bool := [32, 9, 10, 11, 12, 13].contains c.toNat

/-- Why a text is not a bigint. -/
inductive IntError where
  | invalid
  | outOfRange
  deriving DecidableEq, Repr

/-- The magnitude of the most negative bigint. -/
def intLimit : Nat := 2 ^ 63

/-- The value of a digit in the base. -/
def digit (base : Nat) (c : UInt8) : Option Nat :=
  let n := c.toNat
  let d :=
    if 48 ≤ n ∧ n ≤ 57 then some (n - 48)
    else if 97 ≤ n ∧ n ≤ 102 then some (n - 97 + 10)
    else if 65 ≤ n ∧ n ≤ 70 then some (n - 65 + 10)
    else none
  d.filter (· < base)

/-- The digits of a number: its magnitude, what follows it, and whether nothing was read. -/
def digits (base : Nat) : Bool → Nat → Bytes → Except IntError (Nat × Bytes × Bool)
  | first, v, [] => .ok (v, [], first)
  | first, v, c :: rest =>
    match digit base c with
    | some d =>
      if v > (intLimit - d) / base then .error .outOfRange
      else digits base false (v * base + d) rest
    | none =>
      if c.toNat ≠ 95 then .ok (v, c :: rest, first)
      -- an underscore stands between digits, never first in a decimal number
      else if base = 10 ∧ first then .error .invalid
      else match rest with
        | [] => .error .invalid
        | c' :: _ =>
          if (digit base c').isNone then .error .invalid else digits base false v rest

/-- The base a number's prefix gives, and what follows the prefix. -/
def basePrefix : Bytes → Nat × Bytes
  | 48 :: 120 :: rest => (16, rest)
  | 48 :: 88 :: rest => (16, rest)
  | 48 :: 111 :: rest => (8, rest)
  | 48 :: 79 :: rest => (8, rest)
  | 48 :: 98 :: rest => (2, rest)
  | 48 :: 66 :: rest => (2, rest)
  | b => (10, b)

/-- The sign of a number, and what follows it. -/
def signOf : Bytes → Bool × Bytes
  | 45 :: rest => (true, rest)
  | 43 :: rest => (false, rest)
  | b => (false, b)

/-- An integer the way PostgreSQL's bigint input reads it: surrounding blanks, a sign,
the 0x, 0o and 0b bases, and underscores between digits. -/
def pgStrToInt64 (s : Bytes) : Except IntError Int :=
  let (neg, s) := signOf (s.dropWhile isCSpace)
  let (base, s) := basePrefix s
  match digits base true 0 s with
  | .error e => .error e
  | .ok (v, rest, nothing) =>
    if nothing then .error .invalid
    else if rest.dropWhile isCSpace ≠ [] then .error .invalid
    else if neg then .ok (-(v : Int))
    else if v = intLimit then .error .outOfRange
    else .ok v

/-- A shard key value of the router. -/
inductive Value where
  | int (i : Int)
  | text (b : Bytes)
  | uuid (b : List UInt8)
  deriving DecidableEq, Repr

/-- What the statement says about the type of an operand. -/
inductive TypeHint where
  | none
  | int
  | text
  | uuid
  deriving DecidableEq, Repr

/-- One operand: a literal, or the number of a parameter. -/
inductive Operand where
  | value (v : Value)
  | param (number : Nat)
  deriving DecidableEq, Repr

/-- One operand with the cast it carries. -/
structure KeyItem where
  operand : Operand
  hint : TypeHint := .none
  deriving DecidableEq, Repr

/-- The length a cast truncates to; `byteWise` when it counts bytes. -/
structure CastLimit where
  limit : Nat
  byteWise : Bool
  deriving DecidableEq, Repr

/-- The length the named type carries; the outer `none` is a modifier that cannot be
evaluated exactly. -/
def castLength (name : String) (typmods : List (Option Const)) : Option (Option CastLimit) :=
  if name = "char" then
    if typmods = [] then some (some ⟨1, true⟩) else none
  else match typmods with
    | [] => some none
    | [some (.ival n)] =>
      if name = "varchar" ∨ name = "bpchar" ∨ name = "character" then
        if n < 0 then none else some (some ⟨n.toNat, false⟩)
      else none
    | _ => none

/-- The hint a cast to the named type gives. -/
def castHint (name : String) : Option TypeHint :=
  if ["int8", "int4", "int2", "bigint", "integer", "int", "smallint"].contains name then some .int
  else if ["text", "varchar", "name"].contains name then some .text
  else if name = "uuid" then some .uuid
  else if ["bpchar", "character", "char"].contains name then some .text
  else none

/-- Where a cast to `name` truncates, one byte less than the size of the type. -/
def nameDataLen : Nat := 63

/-- A text cut to the length its cast carries. -/
def truncateTo (limit : Option CastLimit) (b : Bytes) : Bytes :=
  match limit with
  | none => b
  | some l =>
    if l.byteWise then b.take l.limit
    else if runeCount b > l.limit then takeRunes l.limit b
    else b

/-- A cast applied to an operand; `none` for one that does not route. -/
def castItem (item : KeyItem) (tn : TypeName) : Option KeyItem :=
  match tn.names.getLast? with
  | none => none
  | some last =>
    let name := last.toLower
    match castHint name, castLength name tn.typmods with
    | some hint, some limit =>
      match item.operand with
      | .param n =>
        -- a parameter's value arrives later, and nothing carries the length that far
        if limit.isSome then none else some ⟨.param n, hint⟩
      | .value (.int i) => if hint = .int then some ⟨.value (.int i), item.hint⟩ else none
      | .value (.text b) =>
        if hint = .text ∨ hint = .uuid then
          if name = "name" ∧ b.length > nameDataLen then none
          else some ⟨.value (.text (truncateTo limit b)), hint⟩
        else match pgStrToInt64 b with
          | .ok i => some ⟨.value (.int i), .int⟩
          | .error _ => none
      | .value (.uuid _) => none
    | _, _ => none

/-- A constant or a parameter under its casts. -/
def literal : Node → Option KeyItem
  | .paramRef n => some ⟨.param n, .none⟩
  | .typeCast arg tn =>
    match literal arg with
    | none => none
    | some inner => castItem inner tn
  | .aConst (.ival i) => some ⟨.value (.int i), .int⟩
  | .aConst (.fval s) =>
    match pgStrToInt64 (bytesOf s) with
    | .ok i => some ⟨.value (.int i), .int⟩
    | .error _ => none
  | .aConst (.sval s) => some ⟨.value (.text (bytesOf s)), .none⟩
  | _ => none

/-- What an operand looks like. -/
lemma literal_induction {motive : (node : Node) → (item : KeyItem) → literal node = some item → Prop}
    (param : ∀ n h, motive (.paramRef n) ⟨.param n, .none⟩ h)
    (ival : ∀ i h, motive (.aConst (.ival i)) ⟨.value (.int i), .int⟩ h)
    (fval : ∀ s i h, pgStrToInt64 (bytesOf s) = .ok i → motive (.aConst (.fval s)) ⟨.value (.int i), .int⟩ h)
    (sval : ∀ s h, motive (.aConst (.sval s)) ⟨.value (.text (bytesOf s)), .none⟩ h)
    (cast : ∀ arg tn inner item harg h, castItem inner tn = some item → motive arg inner harg →
      motive (.typeCast arg tn) item h)
    {node : Node} {item : KeyItem} (h : literal node = some item) : motive node item h := by
  induction node using literal.induct generalizing item with
  | case2 arg tn hnone => simp [literal, hnone] at h
  | case3 arg tn inner harg ih =>
    have hcast : castItem inner tn = some item := by simpa only [literal, harg] using h
    exact cast arg tn inner item harg h hcast (ih harg)
  | case5 s i hp =>
    have hitem : some ⟨.value (.int i), .int⟩ = some item := by simpa only [literal, hp] using h
    cases hitem
    exact fval s i h hp
  | case6 s e hp => simp [literal, hp] at h
  | case8 n =>
    have hno := h
    rw [literal] at hno
    · cases hno
    all_goals assumption
  | _ =>
    cases h
    apply_assumption

/-- The operand an expression is, `none` when it is not a constant or a parameter. A
string that could be an integer and carries no cast is refused. -/
def constOrParam (node : Node) : Except Refusal (Option KeyItem) :=
  match literal node with
  | none => .ok none
  | some item =>
    match item.operand, item.hint with
    | .value (.text b), .none =>
      match pgStrToInt64 b with
      | .ok _ => .error (notYet ("shard key literal '" ++ textOf b ++ "' is untyped and looks numeric")
          ("cast it: '" ++ textOf b ++ "'::int8 or '" ++ textOf b ++ "'::text"))
      | .error _ => .ok (some item)
    | _, _ => .ok (some item)

end PgShard.Key
