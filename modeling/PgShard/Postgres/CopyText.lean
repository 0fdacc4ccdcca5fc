import PgShard.Copy.Split

/-!
# How PostgreSQL reads COPY text

`CopyReadLineText` and `CopyReadAttributesText` of PostgreSQL's `copyfromparse.c`, for the text
format with its defaults: a tab between columns and `\N` for NULL. A pointer into a buffer is the
list of the bytes from there on.
-/

namespace PgShard.Postgres

open Key Copy

inductive CopyReadError
  | literalCarriageReturn
  | literalNewline
  | markerNewlineStyle
  | markerNotAlone
  deriving DecidableEq, Repr

/-- What one line of the input is: a line with its line ending and what follows it, the data before
the end of the input, or the end-of-copy marker. -/
inductive CopyLine
  | line (content : Bytes) (eol : Eol) (rest : Bytes)
  | last (content : Bytes)
  | marker
  deriving DecidableEq, Repr

/-- Behind a backslash and a period, `line` being what stood before them. -/
def endOfCopy (eol : Eol) (line rest : Bytes) : Except CopyReadError CopyLine :=
  match eol, rest with
  | .crnl, 10 :: _ => .error .markerNewlineStyle
  | .crnl, 13 :: rest => newline rest
  | .crnl, _ => .error .markerNotAlone
  | _, rest => newline rest
where
  newline : Bytes → Except CopyReadError CopyLine
    | [] => .error .markerNotAlone
    | c :: _ =>
      if c ≠ 13 ∧ c ≠ 10 then .error .markerNotAlone
      else if (eol = .nl ∧ c ≠ 10) ∨ (eol = .crnl ∧ c ≠ 10) ∨ (eol = .cr ∧ c ≠ 13) then
        .error .markerNewlineStyle
      else if line ≠ [] then .error .markerNotAlone
      else .ok .marker

/-- `CopyReadLineText` over the rest of the input, `line` being what it has of the line. -/
def copyReadLine (eol : Eol) (line : Bytes) : Bytes → Except CopyReadError CopyLine
  | [] => .ok (.last line)
  | c :: rest =>
    if c = 13 then
      match eol, rest with
      | .unknown, 10 :: rest => .ok (.line line .crnl rest)
      | .crnl, 10 :: rest => .ok (.line line .crnl rest)
      | .unknown, rest => .ok (.line line .cr rest)
      | .crnl, _rest => .error .literalCarriageReturn
      | .nl, _rest => .error .literalCarriageReturn
      | .cr, rest => .ok (.line line .cr rest)
    else if c = 10 then
      match eol with
      | .cr | .crnl => .error .literalNewline
      | .unknown | .nl => .ok (.line line .nl rest)
    else if c = 92 then
      match rest with
      -- A backslash just before the end of the input is data.
      | [] => .ok (.last (line ++ [92]))
      | d :: rest =>
        if d = 46 then endOfCopy eol line rest else copyReadLine eol (line ++ [92, d]) rest
    else copyReadLine eol (line ++ [c]) rest

/-- `GetDecimalFromHex` -/
def decimalFromHex (c : UInt8) : Nat :=
  if 48 ≤ c ∧ c ≤ 57 then c.toNat - 48
  else if 65 ≤ c ∧ c ≤ 90 then c.toNat + 32 - 97 + 10
  else c.toNat - 97 + 10

/-- The byte an escape stands for and what follows the escape; `c` is the byte after the backslash. -/
def deescape (c : UInt8) (cur : Bytes) : UInt8 × Bytes :=
  if isOctal c then
    match cur with
    | [] => (UInt8.ofNat (c.toNat - 48), [])
    | d :: cur =>
      if isOctal d then
        match cur with
        | [] => (UInt8.ofNat ((c.toNat - 48) * 8 + (d.toNat - 48)), [])
        | e :: cur =>
          if isOctal e then
            (UInt8.ofNat (((c.toNat - 48) * 8 + (d.toNat - 48)) * 8 + (e.toNat - 48)), cur)
          else (UInt8.ofNat ((c.toNat - 48) * 8 + (d.toNat - 48)), e :: cur)
      else (UInt8.ofNat (c.toNat - 48), d :: cur)
  else if c = 120 then
    match cur with
    | [] => (c, [])
    | d :: cur =>
      if isHex d then
        match cur with
        | [] => (UInt8.ofNat (decimalFromHex d), [])
        | e :: cur =>
          if isHex e then (UInt8.ofNat (decimalFromHex d * 16 + decimalFromHex e), cur)
          else (UInt8.ofNat (decimalFromHex d), e :: cur)
      else (c, d :: cur)
  else if c = 98 then (8, cur)
  else if c = 102 then (12, cur)
  else if c = 110 then (10, cur)
  else if c = 114 then (13, cur)
  else if c = 116 then (9, cur)
  else if c = 118 then (11, cur)
  else (c, cur)

lemma deescape_length (c : UInt8) (cur : Bytes) : (deescape c cur).2.length ≤ cur.length := by
  unfold deescape
  split <;> (repeat' split) <;> simp <;> omega

/-- The value of a field: NULL when its raw text, from `start` to `stop`, is the null marker. -/
def fieldValue (start stop out : Bytes) : Option Bytes :=
  if start.take (start.length - stop.length) = [92, 78] then none else some out

/-- `CopyReadAttributesText`: `start` is where the field starts and `out` its text so far. -/
def copyReadAttributes (start out : Bytes) : Bytes → List (Option Bytes)
  | [] => [fieldValue start [] out]
  | c :: cur =>
    if c = 9 then fieldValue start (c :: cur) out :: copyReadAttributes cur [] cur
    else if c = 92 then
      match cur with
      -- The scan ends before the backslash.
      | [] => [fieldValue start [92] out]
      | d :: cur =>
        have := deescape_length d cur
        copyReadAttributes start (out ++ [(deescape d cur).1]) (deescape d cur).2
    else copyReadAttributes start (out ++ [c]) cur
termination_by cur => cur.length

def attributes (line : Bytes) : List (Option Bytes) := copyReadAttributes line [] line

lemma newline_ok {eol : Eol} {line rest : Bytes} {r : CopyLine}
    (h : endOfCopy.newline eol line rest = .ok r) : r = .marker := by
  unfold endOfCopy.newline at h
  repeat' split at h
  all_goals simp_all

lemma endOfCopy_ok {eol : Eol} {line rest : Bytes} {r : CopyLine}
    (h : endOfCopy eol line rest = .ok r) : r = .marker := by
  unfold endOfCopy at h
  split at h
  · cases h
  · exact newline_ok h
  · cases h
  · exact newline_ok h

lemma copyReadLine_shorter {eol eol' : Eol} {line content b rest : Bytes}
    (h : copyReadLine eol line b = .ok (.line content eol' rest)) : rest.length < b.length := by
  fun_induction copyReadLine eol line b with
  | case13 line rest d => cases endOfCopy_ok h
  | _ => simp_all <;> omega

/-- The lines read before the end of the input, the marker or an error. -/
def copyLines (eol : Eol) (b : Bytes) : List Bytes :=
  match h : copyReadLine eol [] b with
  | .error _ => []
  | .ok .marker => []
  | .ok (.last content) => if content = [] then [] else [content]
  | .ok (.line content eol rest) =>
    have := copyReadLine_shorter h
    content :: copyLines eol rest
termination_by b.length

end PgShard.Postgres
