import PgShard.Relay.Postgres

/-!
# What the pooler knows of a backend's statements

The set of named statements a backend may hold, and the texts that put it in doubt. A text is
read by its characters: every byte the scans compare is ASCII, and the bytes of other characters
end a word as the characters do.
-/

namespace PgShard.Relay

def isASCII (s : List Char) : Bool := s.all (·.toNat < 128)

def upperASCII (c : Char) : Char :=
  if 'a' ≤ c && c ≤ 'z' then Char.ofNat (c.toNat - 32) else c

/-- Whether `s` starts with the upper-case word, ignoring case. -/
def startsFold : List Char → List Char → Bool
  | _, [] => true
  | [], _ :: _ => false
  | c :: s, w :: word => upperASCII c == w && startsFold s word

def containsFold (word : List Char) : List Char → Bool
  | [] => startsFold [] word
  | c :: s => startsFold (c :: s) word || containsFold word s

/-- Whether `s` contains the word as it is. -/
def contains (word : List Char) : List Char → Bool
  | [] => word.isPrefixOf []
  | c :: s => word.isPrefixOf (c :: s) || contains word s

/-- `touchesPrepared`; `toUpper` folds texts that are not ASCII. -/
def touchesPrepared (toUpper : String → String) (sql : String) : Bool :=
  if isASCII sql.toList then
    containsFold "DEALLOCATE".toList sql.toList || containsFold "DISCARD".toList sql.toList
  else
    contains "DEALLOCATE".toList (toUpper sql).toList || contains "DISCARD".toList (toUpper sql).toList

def identByte (c : Char) : Bool :=
  c == '_' || c == '$' || ('0' ≤ c && c ≤ '9') || ('A' ≤ upperASCII c && upperASCII c ≤ 'Z')

/-- What is left after the whole word at the start of the text, if it stands there. -/
def afterWord (word s : List Char) : Option (List Char) :=
  if startsFold s word then
    match s.drop word.length with
    | [] => some []
    | c :: rest => if identByte c then none else some (c :: rest)
  else none

def skipLine : List Char → List Char
  | [] => []
  | c :: s => if c = '\n' then s else skipLine s

/-- What is left after a block comment of the given depth; block comments nest. -/
def skipBlock : Nat → List Char → List Char
  | 0, s => s
  | _ + 1, [] => []
  | depth + 1, '/' :: '*' :: s => skipBlock (depth + 2) s
  | depth + 1, '*' :: '/' :: s => skipBlock depth s
  | depth + 1, _ :: s => skipBlock (depth + 1) s

/-- Blanks and comments are dropped; `fuel` is the length of the text. -/
def skipNoise : Nat → List Char → List Char
  | 0, s => s
  | _ + 1, [] => []
  | fuel + 1, '-' :: '-' :: s => skipNoise fuel (skipLine s)
  | fuel + 1, '/' :: '*' :: s => skipNoise fuel (skipBlock 1 s)
  | fuel + 1, c :: s =>
    if c = ' ' || c = '\t' || c = '\n' || c = '\r' || c = '\x0c' || c = '\x0b' then skipNoise fuel s
    else c :: s

/-- A whole word PREPARE that TRANSACTION does not follow; `boundary` says that the character
before the text cannot continue an identifier. -/
def createsFrom (boundary : Bool) : List Char → Bool
  | [] => false
  | c :: s =>
    (boundary &&
      match afterWord "PREPARE".toList (c :: s) with
      | none => false
      | some rest => (afterWord "TRANSACTION".toList (skipNoise rest.length rest)).isNone) ||
    createsFrom (!identByte c) s

def createsPrepared (sql : String) : Bool := createsFrom true sql.toList

structure PreparedState where
  fingerprint : String
  certain : Bool
  deriving DecidableEq, Repr

abbrev PreparedSet := String → Option PreparedState

def statementFingerprint (p : Prepared) : String := p.oids.foldl (fun sb oid => sb ++ "\x00" ++ toString oid) p.text

namespace PreparedSet

def empty : PreparedSet := fun _ => none

def holds (ps : PreparedSet) (name fp : String) : Bool :=
  match ps name with
  | some st => st.certain && st.fingerprint == fp
  | none => false

def mayHold (ps : PreparedSet) (name : String) : Bool := (ps name).isSome

def doubtAll (ps : PreparedSet) : PreparedSet := fun name => (ps name).map fun st => { st with certain := false }

def set (ps : PreparedSet) (name : String) (st : PreparedState) : PreparedSet := Function.update ps name (some st)

/-- A Close leaves a tracked name without a fingerprint. -/
def forget (ps : PreparedSet) (name : String) : PreparedSet :=
  if ps.mayHold name then ps.set name ⟨"", false⟩ else ps

/-- The names a batch parsed, once it ended without an error. -/
def certify (ps : PreparedSet) (parsed : List String) : PreparedSet :=
  parsed.foldl (fun ps name =>
    match ps name with
    | some st => if st.fingerprint ≠ "" then ps.set name { st with certain := true } else ps
    | none => ps) ps

end PreparedSet

end PgShard.Relay
