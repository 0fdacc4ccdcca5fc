import PgShard.Postgres.Cast

/-!
# The spelling of a column's type

The router knows a column's type by the name the shards give it, and reads its length back.
-/

namespace PgShard.Key

lemma toLower_digit {c : Char} (h : c.isDigit = true) : c.toLower = c := by
  have hle : c.val ≤ '9'.val := by
    simp only [Char.isDigit, Bool.and_eq_true, decide_eq_true_eq] at h
    exact h.2
  apply dif_neg
  rintro ⟨hA, _⟩
  have := UInt32.le_trans hA hle
  revert this
  decide

lemma atoi_toDigits (n : Nat) : atoi (Nat.toDigits 10 n) = some (n : Int) := by
  have hdigits : ∀ c ∈ Nat.toDigits 10 n, c.isDigit = true :=
    fun c hc => Nat.isDigit_of_mem_toDigits (by omega) (by omega) hc
  have hvalue := Nat.ofDigitChars_toDigits (b := 10) (n := n) (by omega) (by omega)
  cases hds : Nat.toDigits 10 n with
  | nil => exact absurd hds Nat.toDigits_ne_nil
  | cons d ds =>
    rw [hds] at hdigits hvalue
    have hd := hdigits d (by simp)
    have hall : (d :: ds).all Char.isDigit = true := List.all_eq_true.mpr hdigits
    unfold atoi
    split
    · next heq => cases heq; exact absurd hd (by decide)
    · next heq => cases heq; exact absurd hd (by decide)
    · dsimp only
      rw [if_neg (by rw [hall]; simp)]
      unfold Nat.ofDigitChars at hvalue
      have hzero : '0'.toNat = 48 := rfl
      rw [hzero] at hvalue
      rw [hvalue]
      rfl

/-- The name of a type with a length, as the shards spell it, is read back. -/
lemma parseCharType_length {base : String} (first : Char) (rest : List Char) (n : Nat)
    (hbase : base.toList = first :: rest) (hf : first.isWhitespace = false)
    (hlower : (first :: rest).map Char.toLower = first :: rest)
    (hplain : '(' ∉ first :: rest) (htrim : trimSpace (first :: rest) = first :: rest) :
    parseCharType (base ++ "(" ++ toString n ++ ")") = (base, some n) := by
  have hback : String.ofList (first :: rest) = base := by rw [← hbase, String.ofList_toList]
  have hdigits : (Nat.toDigits 10 n).map Char.toLower = Nat.toDigits 10 n := by
    conv => rhs; rw [← List.map_id (Nat.toDigits 10 n)]
    apply List.map_congr_left
    intro c hc
    exact toLower_digit (Nat.isDigit_of_mem_toDigits (by omega) (by omega) hc)
  have hchars : (base ++ "(" ++ toString n ++ ")").toLower.toList =
      first :: rest ++ '(' :: (Nat.toDigits 10 n ++ [')']) := by
    have hn : (toString n).toList = Nat.toDigits 10 n := Nat.toList_repr
    have hopen : ("(" : String).toList.map Char.toLower = ['('] := by decide
    have hclose : (")" : String).toList.map Char.toLower = [')'] := by decide
    rw [String.toLower, String.toList_map]
    simp only [String.toList_append, List.map_append, hbase, hlower, hn, hdigits,
      hopen, hclose, List.append_assoc, List.singleton_append]
  have hplain' : ∀ c ∈ first :: rest, (fun c => decide (c ≠ '(')) c = true := by
    intro c hc
    have hne : c ≠ '(' := fun heq => hplain (heq ▸ hc)
    simpa using hne
  have hlast : (first :: rest ++ '(' :: (Nat.toDigits 10 n ++ [')'])).getLast? = some ')' := by
    simp [List.getLast?_append, List.getLast?_cons]
  have htrimmed : trimSpace (first :: rest ++ '(' :: (Nat.toDigits 10 n ++ [')'])) =
      first :: rest ++ '(' :: (Nat.toDigits 10 n ++ [')']) := by
    have hclose : ')'.isWhitespace = false := by decide
    simp [trimSpace, hf, hclose]
  unfold parseCharType
  rw [hchars, htrimmed]
  dsimp only
  rw [List.takeWhile_append_of_pos hplain', List.dropWhile_append_of_pos hplain', hlast]
  simp [atoi_toDigits, htrim, hback]

end PgShard.Key

namespace PgShard.Postgres

open Key

/-- The name and the length the router reads off a column's type. -/
def Column.parsed : Column → String × Option Nat
  | .int2 => ("smallint", none)
  | .int4 => ("integer", none)
  | .int8 => ("bigint", none)
  | .uuid => ("uuid", none)
  | .text => ("text", none)
  | .varchar length => ("character varying", length)
  | .character none => ("bpchar", none)
  | .character (some n) => ("character", some n)

lemma parseCharType_spelling (col : Column) : parseCharType col.spelling = col.parsed := by
  cases col with
  | varchar length =>
    cases length with
    | none => decide +kernel
    | some n =>
      exact parseCharType_length 'c' "haracter varying".toList n (by decide)
        (by decide) (by decide) (by decide) (by decide)
  | character length =>
    cases length with
    | none => decide +kernel
    | some n =>
      exact parseCharType_length 'c' "haracter".toList n (by decide) (by decide) (by decide) (by decide) (by decide)
  | _ => decide +kernel

end PgShard.Postgres
