import PgShard.Key.Literal

/-!
# Rows of a COPY stream

The splitter of `internal/router/copysplit`: chunks of COPY text arrive on no particular boundary,
whole rows come out, each with the text of its shard-key column.
-/

namespace PgShard.Copy

open Key

/-- The line ending of a stream, which its first row decides. -/
inductive Eol
  | unknown
  | nl
  | cr
  | crnl
  deriving DecidableEq, Repr

inductive SplitError
  | shortRow
  | longRow
  | mixedLineEndings
  | nulInKey
  deriving DecidableEq, Repr

def SplitError.text : SplitError → String
  | .shortRow => "copy row has fewer columns than the statement names"
  | .longRow => "copy row has more columns than the statement names"
  | .mixedLineEndings => "copy row has a literal carriage return or newline that does not match the stream's line ending; write it as \\r or \\n"
  | .nulInKey => "copy row's shard key contains a zero byte"

structure Splitter where
  buf : Bytes := []
  keyCol : Nat
  cols : Nat
  eol : Eol := .unknown
  ended : Bool := false
  deriving DecidableEq, Repr

def Splitter.write (s : Splitter) (p : Bytes) : Splitter := { s with buf := s.buf ++ p }

/-- The source's `Splitter.End`. -/
def Splitter.finish (s : Splitter) : Splitter := { s with ended := true }

def Splitter.rest (s : Splitter) : Bytes := s.buf

structure Row where
  bytes : Bytes
  key : Bytes := []
  keyIsNull : Bool := false
  deriving DecidableEq, Repr

/-- The index just past the line ending of the first row, with the line ending the stream then has:
`i` bytes of the buffer are behind the list. No index means the buffer holds no whole row. -/
def rowEnd (ended : Bool) (eol : Eol) : Nat → Bytes → Except SplitError (Option Nat × Eol)
  | _, [] => .ok (none, eol)
  | i, c :: rest =>
    if c = 92 then
      -- A backslash escapes the byte after it, a newline included.
      match rest with
      | [] => .ok (none, eol)
      | _ :: rest => rowEnd ended eol (i + 2) rest
    else if c = 10 then
      match eol with
      | .unknown => .ok (some (i + 1), .nl)
      | .nl => .ok (some (i + 1), .nl)
      | .cr => .error .mixedLineEndings
      | .crnl => .error .mixedLineEndings
    else if c = 13 then
      match eol, rest with
      | .nl, _ => .error .mixedLineEndings
      | .cr, _ => .ok (some (i + 1), .cr)
      -- Whether a newline follows is in the next chunk, unless none is coming.
      | .unknown, [] => if ended then .ok (some (i + 1), .cr) else .ok (none, .unknown)
      | .crnl, [] => if ended then .error .mixedLineEndings else .ok (none, .crnl)
      | .unknown, d :: _ => if d = 10 then .ok (some (i + 2), .crnl) else .ok (some (i + 1), .cr)
      | .crnl, d :: _ => if d = 10 then .ok (some (i + 2), .crnl) else .error .mixedLineEndings
    else rowEnd ended eol (i + 1) rest

/-- The byte at `i` is preceded by an odd run of backslashes. -/
def escaped (b : Bytes) (i : Nat) : Bool := ((b.take i).reverse.takeWhile (· = 92)).length % 2 = 1

def isOctal (c : UInt8) : Bool := 48 ≤ c && c ≤ 55

def isHex (c : UInt8) : Bool := (48 ≤ c && c ≤ 57) || (97 ≤ c && c ≤ 102) || (65 ≤ c && c ≤ 70)

def hexVal (c : UInt8) : UInt8 :=
  if 97 ≤ c then c - 97 + 10 else if 65 ≤ c then c - 65 + 10 else c - 48

/-- The escapes of one byte. -/
def named (c : UInt8) : UInt8 :=
  if c = 98 then 8
  else if c = 102 then 12
  else if c = 110 then 10
  else if c = 114 then 13
  else if c = 116 then 9
  else if c = 118 then 11
  else c

/-- The octal digits after the first, at most `k` of them: the value so far and what is left. -/
def octalDigits (v : UInt8) : Nat → Bytes → UInt8 × Bytes
  | 0, b => (v, b)
  | _ + 1, [] => (v, [])
  | k + 1, c :: rest => if isOctal c then octalDigits (v * 8 + (c - 48)) k rest else (v, c :: rest)

lemma octalDigits_length (v : UInt8) (k : Nat) (b : Bytes) : (octalDigits v k b).2.length ≤ b.length := by
  induction k generalizing v b with
  | zero => exact .refl
  | succ k ih =>
    cases b with
    | nil => exact .refl
    | cons c rest =>
      by_cases hc : isOctal c
      · have hrest := ih (v * 8 + (c - 48)) rest
        simp only [octalDigits, if_pos hc, List.length_cons]
        omega
      · simp [octalDigits, hc]

/-- The bytes of an escape, from the byte after the backslash on: the byte it stands for and what
is left. -/
def escape (c : UInt8) (rest : Bytes) : UInt8 × Bytes :=
  if isOctal c then octalDigits (c - 48) 2 rest
  else
    match rest with
    | [] => (named c, [])
    | d :: rest =>
      if c = 120 && isHex d then
        match rest with
        | [] => (hexVal d, [])
        | e :: rest => if isHex e then (hexVal d * 16 + hexVal e, rest) else (hexVal d, e :: rest)
      else (named c, d :: rest)

lemma escape_length (c : UInt8) (rest : Bytes) : (escape c rest).2.length ≤ rest.length := by
  unfold escape
  split
  · exact octalDigits_length _ _ _
  · split
    · exact .refl
    · split
      · split
        · simp
        · split
          · simp only [List.length_cons]
            omega
          · simp
      · exact .refl

/-- The value a shard stores for the text of a column. -/
def unescape : Bytes → Bytes
  | [] => []
  | [c] => [c]
  | c :: d :: rest =>
    if c = 92 then
      have := escape_length d rest
      (escape d rest).1 :: unescape (escape d rest).2
    else c :: unescape (d :: rest)
termination_by b => b.length

/-- The columns of a line: they end at a tab that no backslash escapes. -/
def fields (field : Bytes) : Bytes → List Bytes
  | [] => [field]
  | c :: rest =>
    if c = 92 then
      match rest with
      | [] => [field ++ [c]]
      | d :: rest => fields (field ++ [c, d]) rest
    else if c = 9 then field :: fields [] rest
    else fields (field ++ [c]) rest

/-- A row without its line ending. -/
def line (row : Bytes) : Bytes :=
  let line := if row.getLast? = some 10 then row.dropLast else row
  if line.getLast? = some 13 ∧ escaped line (line.length - 1) = false then line.dropLast else line

/-- The text of column `n`, and whether it was the NULL marker. -/
def column (row : Bytes) (n cols : Nat) : Except SplitError (Bytes × Bool) :=
  let found := fields [] (line row)
  if found.length < cols then .error .shortRow
  else if cols < found.length then .error .longRow
  else
    let raw := found.getD n []
    if raw = [92, 78] then .ok ([], true)
    else if 0 ∈ unescape raw then .error .nulInKey
    else .ok (unescape raw, false)

/-- Whether a row is the end-of-data marker, a line of its own. -/
def isMarker (row : Bytes) : Bool := (row.reverse.dropWhile fun c => c = 13 || c = 10).reverse = [92, 46]

/-- Cut the first `n` bytes of the buffer off as a row. -/
def Splitter.cut (s : Splitter) (n : Nat) : Except SplitError (Option Row × Splitter) :=
  let row := s.buf.take n
  let s := { s with buf := s.buf.drop n }
  if isMarker row then .ok (some { bytes := row }, s)
  else
    match column row s.keyCol s.cols with
    | .error e => .error e
    | .ok (key, null) => .ok (some { bytes := row, key := key, keyIsNull := null }, s)

def Splitter.next (s : Splitter) : Except SplitError (Option Row × Splitter) :=
  match rowEnd s.ended s.eol 0 s.buf with
  | .error e => .error e
  | .ok (some n, eol) => Splitter.cut { s with eol := eol } n
  | .ok (none, eol) =>
    -- The last row need not end in a line ending.
    if s.ended && !s.buf.isEmpty then Splitter.cut { s with eol := eol } s.buf.length
    else .ok (none, { s with eol := eol })

lemma rowEnd_pos {ended : Bool} {eol eol' : Eol} {i n : Nat} {b : Bytes}
    (h : rowEnd ended eol i b = .ok (some n, eol')) : i < n ∧ b ≠ [] := by
  fun_induction rowEnd ended eol i b <;> simp_all <;> omega

lemma Splitter.cut_shorter {s s' : Splitter} {n : Nat} {row : Row} (hn : 0 < n) (hb : s.buf ≠ [])
    (h : s.cut n = .ok (some row, s')) : s'.buf.length < s.buf.length := by
  have hpos : 0 < s.buf.length := List.length_pos_iff.mpr hb
  have hbuf : s'.buf = s.buf.drop n := by
    unfold Splitter.cut at h
    dsimp only at h
    split at h
    · cases h
      rfl
    · split at h
      · cases h
      · cases h
        rfl
  rw [hbuf, List.length_drop]
  omega

lemma Splitter.next_shorter {s s' : Splitter} {row : Row} (h : s.next = .ok (some row, s')) :
    s'.buf.length < s.buf.length := by
  unfold Splitter.next at h
  split at h
  · cases h
  · rename_i n eol hend
    obtain ⟨hn, hb⟩ := rowEnd_pos hend
    exact Splitter.cut_shorter (s := { s with eol := eol }) hn hb h
  · split at h
    · rename_i eol _ hlast
      have hb : s.buf ≠ [] := by
        intro hnil
        simp [hnil] at hlast
      exact Splitter.cut_shorter (s := { s with eol := eol }) (List.length_pos_iff.mpr hb) hb h
    · cases h

example : (Splitter.next { keyCol := 0, cols := 2, buf := [53, 9, 92, 116, 13, 10, 54] }).toOption.map Prod.fst =
    some (some { bytes := [53, 9, 92, 116, 13, 10], key := [53] }) := by decide +kernel

end PgShard.Copy
