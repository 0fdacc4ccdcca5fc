import PgShard.Scatter.Compare

/-!
# Division of numerics

PostgreSQL stores a numeric in base 10000 and takes the scale of a quotient from the leading digits of
its operands. The router has fractions, and reads those digits off their decimal texts.
-/

namespace PgShard.Scatter

/-- `roundRat`: `scale` decimal places, halves away from zero. `big.Int.QuoRem` truncates. -/
def roundRat (q : ℚ) (scale : Nat) : ℚ :=
  let n := q.num * 10 ^ scale
  let quo := n.tdiv q.den
  let quo := if q.den ≤ 2 * (n.tmod q.den).natAbs then (if q < 0 then quo - 1 else quo + 1) else quo
  quo / 10 ^ scale

/-- The loop that makes an integer of a fraction, with the number of its turns. -/
def shiftOut : Nat → ℚ → Option (Nat × Nat)
  | 0, _ => none
  | fuel + 1, x =>
    if x.den = 1 then some (x.num.natAbs, 0) else (shiftOut fuel (x * 10000)).map fun r => (r.1, r.2 + 1)

/-- The weight and the value of the leading digit in base 10000 of a text of decimal digits. -/
def leadingDigit (digits : List Char) : Int × Nat :=
  let lead := if digits.length % 4 = 0 then 4 else digits.length % 4
  (((digits.length + 3) / 4 : Nat) - 1, Nat.ofDigitChars 10 (digits.take lead) 0)

def weightAndFirstDigit (fuel : Nat) (r : ℚ) : Option (Int × Nat) :=
  if r = 0 then some (0, 0)
  else (shiftOut fuel |r|).map fun (n, shift) =>
    ((leadingDigit (Nat.toDigits 10 n)).1 - shift, (leadingDigit (Nat.toDigits 10 n)).2)

def selectDivScale (fuel : Nat) (num den : Value) : Option Nat := do
  let (weight1, first1) ← weightAndFirstDigit fuel num.rat
  let (weight2, first2) ← weightAndFirstDigit fuel den.rat
  let qweight := if first1 ≤ first2 then weight1 - weight2 - 1 else weight1 - weight2
  let rscale := max (max (max (16 - qweight * 4) num.scale) den.scale) 0
  return (min rscale 1000).toNat

/-- `big.Rat.Quo` has no answer for a divisor that is zero. -/
def divideRounded (fuel : Nat) (num den : Value) : Option Value := do
  let scale ← selectDivScale fuel num den
  guard (den.rat ≠ 0)
  return { rat := roundRat (num.rat / den.rat) scale, scale }

/-- `big.Rat.FloatString`: the last digit is rounded, halves away from zero. -/
def floatString (x : ℚ) (prec : Nat) : List Char :=
  let n := (2 * (x.num.natAbs * 10 ^ prec) + x.den) / (2 * x.den)
  let frac := Nat.toDigits 10 (n % 10 ^ prec)
  (if x < 0 then ['-'] else []) ++ Nat.toDigits 10 (n / 10 ^ prec) ++
    if prec = 0 then [] else '.' :: (List.replicate (prec - frac.length) '0' ++ frac)

def formatNumeric (v : Value) : List Char :=
  match v.cls with
  | .nan => "NaN".toList
  | .posInf => "Infinity".toList
  | .negInf => "-Infinity".toList
  | .finite => floatString v.rat v.scale

/-- The sum of the digits, the first with the weight `w`. -/
def magnitude : List Nat → Int → ℚ
  | [], _ => 0
  | d :: ds, w => d * 10000 ^ w + magnitude ds (w - 1)

/-- A finite numeric. -/
structure NumericVar where
  neg : Bool
  digits : List Nat
  weight : Int
  dscale : Nat
  digit_lt : ∀ d ∈ digits, d < 10000

namespace NumericVar

def value (x : NumericVar) : ℚ := if x.neg then -magnitude x.digits x.weight else magnitude x.digits x.weight

def toValue (x : NumericVar) : Value := { rat := x.value, scale := x.dscale }

/-- The first digit that is not zero, with its weight. -/
def firstDigit : List Nat → Int → Int × Nat
  | [], _ => (0, 0)
  | d :: ds, w => if d ≠ 0 then (w, d) else firstDigit ds (w - 1)

/-- numeric.c's `select_div_scale`. -/
def selectDivScale (x y : NumericVar) : Int :=
  let (weight1, firstdigit1) := firstDigit x.digits x.weight
  let (weight2, firstdigit2) := firstDigit y.digits y.weight
  -- equal first digits do not tell which of the two is less
  let qweight := if firstdigit1 ≤ firstdigit2 then weight1 - weight2 - 1 else weight1 - weight2
  min (max (max (max (16 - qweight * 4) x.dscale) y.dscale) 0) 1000

end NumericVar

/-- The nearest number with `scale` decimal places, halves away from zero. -/
def halfAway (q : ℚ) (scale : Nat) : ℚ :=
  (if q < 0 then -round (-q * 10 ^ scale) else round (q * 10 ^ scale) : Int) / 10 ^ scale

/-- The text writes `r`, with `scale` digits after the point. -/
def Writes (text : List Char) (scale : Nat) (r : ℚ) : Prop :=
  ∃ (neg : Bool) (whole frac : List Char),
    text = (if neg then ['-'] else []) ++ whole ++ (if scale = 0 then [] else '.' :: frac) ∧
    whole ≠ [] ∧ frac.length = scale ∧ (∀ c ∈ whole ++ frac, c.isDigit = true) ∧
    r = (if neg then -1 else 1) * Nat.ofDigitChars 10 (whole ++ frac) 0 / 10 ^ scale

/-- The leading digit of `x` in base 10000 is `d`, at the weight `w`. -/
structure Leading (x : ℚ) (w : Int) (d : Nat) : Prop where
  pos : 0 < d
  lt : d < 10000
  le : d * 10000 ^ w ≤ |x|
  below : |x| < (d + 1) * 10000 ^ w

namespace Leading

variable {x : ℚ} {w w' : Int} {d d' : Nat}

lemma ne_zero (h : Leading x w d) : x ≠ 0 := by
  have hd : (0 : ℚ) < d * 10000 ^ w := mul_pos (by exact_mod_cast h.pos) (by positivity)
  exact abs_pos.mp (hd.trans_le h.le)

lemma weight_le (h : Leading x w d) (h' : Leading x w' d') : w ≤ w' := by
  by_contra hlt
  have hd : (1 : ℚ) ≤ d := by exact_mod_cast h.pos
  have hd' : (d' : ℚ) + 1 ≤ 10000 := by exact_mod_cast h'.lt
  have hpow : (10000 : ℚ) ^ (w' + 1) ≤ 10000 ^ w := zpow_le_zpow_right₀ (by norm_num) (by omega)
  have hpos : (0 : ℚ) < 10000 ^ w' := by positivity
  rw [zpow_add_one₀ (by norm_num)] at hpow
  nlinarith [h.le, h'.below, show (0 : ℚ) < 10000 ^ w by positivity]

lemma unique (h : Leading x w d) (h' : Leading x w' d') : w = w' ∧ d = d' := by
  obtain rfl : w = w' := le_antisymm (h.weight_le h') (h'.weight_le h)
  have hpos : (0 : ℚ) < 10000 ^ w := by positivity
  have hlt : (d : ℚ) < d' + 1 := lt_of_mul_lt_mul_right (h.le.trans_lt h'.below) hpos.le
  have hlt' : (d' : ℚ) < d + 1 := lt_of_mul_lt_mul_right (h'.le.trans_lt h.below) hpos.le
  norm_cast at hlt hlt'
  exact ⟨rfl, by omega⟩

end Leading

lemma magnitude_nonneg (ds : List Nat) (w : Int) : 0 ≤ magnitude ds w := by
  induction ds generalizing w with
  | nil => exact le_rfl
  | cons d ds ih => exact add_nonneg (by positivity) (ih _)

lemma magnitude_lt {ds : List Nat} (h : ∀ d ∈ ds, d < 10000) (w : Int) : magnitude ds w < 10000 ^ (w + 1) := by
  induction ds generalizing w with
  | nil => exact zpow_pos (by norm_num) _
  | cons d ds ih =>
    have hrest := ih (fun e he => h e (List.mem_cons_of_mem _ he)) (w - 1)
    have hd : (d : ℚ) + 1 ≤ 10000 := by exact_mod_cast h d List.mem_cons_self
    have hpos : (0 : ℚ) < 10000 ^ w := by positivity
    rw [sub_add_cancel] at hrest
    rw [zpow_add_one₀ (by norm_num)]
    simp only [magnitude]
    nlinarith

lemma firstDigit_leading {ds : List Nat} (h : ∀ d ∈ ds, d < 10000) (w : Int) :
    (magnitude ds w = 0 ∧ NumericVar.firstDigit ds w = (0, 0)) ∨
      Leading (magnitude ds w) (NumericVar.firstDigit ds w).1 (NumericVar.firstDigit ds w).2 := by
  induction ds generalizing w with
  | nil => exact .inl ⟨rfl, rfl⟩
  | cons d ds ih =>
    have hds : ∀ e ∈ ds, e < 10000 := fun e he => h e (.tail _ he)
    by_cases hd : d = 0
    · simpa [magnitude, NumericVar.firstDigit, hd] using ih hds (w - 1)
    · have hrest := magnitude_lt hds (w - 1)
      have hnonneg := magnitude_nonneg ds (w - 1)
      rw [sub_add_cancel] at hrest
      have habs : |magnitude (d :: ds) w| = d * 10000 ^ w + magnitude ds (w - 1) := abs_of_nonneg (magnitude_nonneg _ _)
      simp only [NumericVar.firstDigit, if_pos hd]
      refine .inr ⟨Nat.pos_of_ne_zero hd, h d List.mem_cons_self, ?_, ?_⟩
      all_goals rw [habs]
      · linarith
      · linarith

/-- After enough places the digits end. -/
lemma magnitude_ends (ds : List Nat) (w : Int) : ∃ k n : Nat, magnitude ds w * 10000 ^ k = n := by
  induction ds generalizing w with
  | nil => exact ⟨0, 0, by simp [magnitude]⟩
  | cons d ds ih =>
    obtain ⟨k, n, hn⟩ := ih (w - 1)
    obtain ⟨j, hj⟩ : ∃ j : Nat, (10000 : ℚ) ^ w * 10000 ^ w.natAbs = 10000 ^ j := by
      refine ⟨(w + w.natAbs).toNat, ?_⟩
      rw [← zpow_natCast, ← zpow_natCast, ← zpow_add₀ (by norm_num)]
      congr 1
      omega
    refine ⟨w.natAbs + k, d * 10000 ^ j * 10000 ^ k + n * 10000 ^ w.natAbs, ?_⟩
    push_cast
    rw [magnitude, pow_add, ← hj, ← hn]
    ring

/-- The first digits are those of the number without its last ones. -/
lemma toDigits_take {k n : Nat} (h : 10 ^ k ≤ n) :
    (Nat.toDigits 10 n).take ((Nat.toDigits 10 n).length - k) = Nat.toDigits 10 (n / 10 ^ k) := by
  induction k generalizing n with
  | zero => simp
  | succ k ih =>
    have hten : 10 ^ k ≤ n / 10 := (Nat.le_div_iff_mul_le (by omega)).mpr (by rwa [← Nat.pow_succ])
    have hpos : 0 < 10 ^ k := by positivity
    have hn : 10 ≤ n := by omega
    have hlen : (Nat.toDigits 10 (n / 10)).length + 1 - (k + 1) = (Nat.toDigits 10 (n / 10)).length - k := by omega
    rw [Nat.toDigits_of_base_le (by omega) hn, List.length_append, List.length_singleton, hlen,
      List.take_append_of_le_length (Nat.sub_le _ _), ih hten, Nat.div_div_eq_div_mul, Nat.pow_succ, Nat.mul_comm]

lemma leadingDigit_leading {n : Nat} (hn : 0 < n) :
    Leading n (leadingDigit (Nat.toDigits 10 n)).1 (leadingDigit (Nat.toDigits 10 n)).2 := by
  have hlen : ∀ k, 0 < k → ((Nat.toDigits 10 n).length ≤ k ↔ n < 10 ^ k) :=
    fun k hk => Nat.length_toDigits_le_iff (by omega) hk
  have hlen0 : 0 < (Nat.toDigits 10 n).length := Nat.length_toDigits_pos
  unfold leadingDigit
  generalize hL : (Nat.toDigits 10 n).length = L at hlen hlen0
  generalize hk : (L + 3) / 4 - 1 = k
  have hlead : (if L % 4 = 0 then 4 else L % 4) = L - 4 * k := by split <;> omega
  have hle : 10 ^ (4 * k) ≤ n := by
    by_cases hk0 : k = 0
    · rw [hk0]
      exact hn
    · exact not_lt.mp ((hlen (4 * k) (by omega)).not.mp (by omega))
  have hlt : n < 10 ^ (4 * k) * 10000 :=
    ((hlen L hlen0).mp le_rfl).trans_le (by rw [← Nat.pow_add 10 (4 * k) 4]; exact Nat.pow_le_pow_right (by omega) (by omega))
  have hfirst : Nat.ofDigitChars 10 ((Nat.toDigits 10 n).take (L - 4 * k)) 0 = n / 10 ^ (4 * k) := by
    rw [← hL, toDigits_take hle, Nat.ofDigitChars_ten_toDigits]
  have hweight : (((L + 3) / 4 : Nat) : Int) - 1 = k := by omega
  have hpow : (10000 : ℚ) ^ (k : Int) = (10 ^ (4 * k) : Nat) := by
    rw [zpow_natCast, pow_mul]
    norm_num
  simp only [hlead, hfirst, hweight]
  refine ⟨Nat.div_pos hle (by positivity), Nat.div_lt_of_lt_mul hlt, ?_, ?_⟩
  all_goals rw [Nat.abs_cast, hpow]
  · exact_mod_cast Nat.div_mul_le_self n _
  · exact_mod_cast Nat.lt_mul_of_div_lt (Nat.lt_succ_self _) (by positivity)

lemma shiftOut_ends {k n : Nat} {x : ℚ} (hx : 0 ≤ x) (h : x * 10000 ^ k = n) {fuel : Nat} (hfuel : k < fuel) :
    ∃ m s, shiftOut fuel x = some (m, s) ∧ x * 10000 ^ s = m := by
  induction k generalizing x fuel with
  | zero =>
    obtain ⟨fuel, rfl⟩ := Nat.exists_eq_add_of_lt hfuel
    have hx : x = n := by simpa using h
    exact ⟨n, 0, by simp [shiftOut, hx], by simp [hx]⟩
  | succ k ih =>
    obtain ⟨fuel, rfl⟩ : ∃ m, fuel = m + 1 := ⟨fuel - 1, by omega⟩
    by_cases hden : x.den = 1
    · refine ⟨x.num.natAbs, 0, by simp [shiftOut, hden], ?_⟩
      rw [pow_zero, mul_one, Nat.cast_natAbs, abs_of_nonneg (Rat.num_nonneg.mpr hx)]
      exact (Rat.coe_int_num_of_den_eq_one hden).symm
    · obtain ⟨m, s, hm, hs⟩ := ih (x := x * 10000) (by positivity) (by rw [← h]; ring) (Nat.lt_of_succ_lt_succ hfuel)
      refine ⟨m, s + 1, by simp [shiftOut, hden, hm], ?_⟩
      rw [← hs]
      ring

lemma Leading.shift {x : ℚ} {w : Int} {d s : Nat} (h : Leading (x * 10000 ^ s) w d) : Leading x (w - s) d := by
  have hle := h.le
  have hbelow := h.below
  have habs : |x * 10000 ^ s| = |x| * 10000 ^ s := by
    rw [abs_mul, abs_of_pos (a := (10000 : ℚ) ^ s) (by positivity)]
  rw [habs] at hle hbelow
  have hpow : (10000 : ℚ) ^ (w - s) = 10000 ^ w / 10000 ^ s := by rw [zpow_sub₀ (by norm_num), zpow_natCast]
  refine ⟨h.pos, h.lt, ?_, ?_⟩
  · rw [hpow, ← mul_div_assoc, div_le_iff₀ (by positivity)]
    exact hle
  · rw [hpow, ← mul_div_assoc, lt_div_iff₀ (by positivity)]
    exact hbelow

namespace NumericVar

variable (x y : NumericVar)

lemma abs_value : |x.value| = magnitude x.digits x.weight := by
  unfold value
  split
  · rw [abs_neg, abs_of_nonneg (magnitude_nonneg _ _)]
  · exact abs_of_nonneg (magnitude_nonneg _ _)

lemma weightAndFirstDigit_eq : ∃ k, ∀ fuel, k < fuel →
    weightAndFirstDigit fuel x.value = some (firstDigit x.digits x.weight) := by
  rcases firstDigit_leading x.digit_lt x.weight with ⟨hzero, hfirst⟩ | hlead
  · have hvalue : x.value = 0 := abs_eq_zero.mp (x.abs_value.trans hzero)
    exact ⟨0, fun fuel _ => by rw [weightAndFirstDigit, if_pos hvalue, hfirst]⟩
  · obtain ⟨k, n, hn⟩ := magnitude_ends x.digits x.weight
    rw [← x.abs_value] at hn hlead
    refine ⟨k, fun fuel hfuel => ?_⟩
    obtain ⟨m, s, hm, hs⟩ := shiftOut_ends (abs_nonneg _) hn hfuel
    have hvalue : |x.value| ≠ 0 := hlead.ne_zero
    have hpos : 0 < m := by
      refine Nat.pos_of_ne_zero fun hzero => hvalue ?_
      simpa [hzero] using hs
    have hmine := leadingDigit_leading hpos
    rw [← hs] at hmine
    obtain ⟨hw, hd⟩ := hmine.shift.unique hlead
    rw [weightAndFirstDigit, if_neg (abs_ne_zero.mp hvalue), hm, Option.map_some]
    exact congrArg some (Prod.ext hw hd)

lemma selectDivScale_nonneg : 0 ≤ x.selectDivScale y := by
  simp [selectDivScale]

lemma selectDivScale_eq : ∃ k, ∀ fuel, k < fuel →
    Scatter.selectDivScale fuel x.toValue y.toValue = some (x.selectDivScale y).toNat := by
  obtain ⟨k, hk⟩ := x.weightAndFirstDigit_eq
  obtain ⟨j, hj⟩ := y.weightAndFirstDigit_eq
  refine ⟨max k j, fun fuel hfuel => ?_⟩
  simp only [Scatter.selectDivScale, toValue, hk fuel (by omega), hj fuel (by omega)]
  rfl

end NumericVar

lemma round_div {n d : Int} (hn : 0 ≤ n) (hd : 0 < d) :
    round ((n : ℚ) / d) = if d ≤ 2 * n.tmod d then n.tdiv d + 1 else n.tdiv d := by
  have hdiv := Int.mul_tdiv_add_tmod n d
  have hrem := Int.tmod_nonneg d hn
  have hlt := Int.tmod_lt_of_pos n hd
  generalize n.tdiv d = a at *
  generalize n.tmod d = r at *
  have hd' : (0 : ℚ) < d := by exact_mod_cast hd
  have hvalue : (n : ℚ) / d = a + r / d := by
    rw [← hdiv]
    push_cast
    field_simp
  have hpart : (r : ℚ) / d < 1 := (div_lt_one hd').mpr (by exact_mod_cast hlt)
  have hpart0 : 0 ≤ (r : ℚ) / d := div_nonneg (by exact_mod_cast hrem) hd'.le
  have hhalf : d ≤ 2 * r ↔ (1 : ℚ) / 2 ≤ r / d := by
    rw [div_le_div_iff₀ two_pos hd', one_mul, mul_comm]
    norm_cast
  rw [round_eq, hvalue, Int.floor_eq_iff]
  split
  · rename_i hup
    rw [hhalf] at hup
    push_cast
    constructor <;> linarith
  · rename_i hup
    rw [hhalf, not_le] at hup
    constructor <;> linarith

lemma roundRat_of_nonneg {q : ℚ} (hq : 0 ≤ q) (scale : Nat) :
    roundRat q scale = round (q * 10 ^ scale) / 10 ^ scale := by
  have hd : (0 : Int) < q.den := by exact_mod_cast q.den_pos
  have hn : 0 ≤ q.num * 10 ^ scale := mul_nonneg (Rat.num_nonneg.mpr hq) (by positivity)
  have hvalue : q * 10 ^ scale = (q.num * 10 ^ scale : Int) / (q.den : Int) := by
    conv_lhs => rw [← Rat.num_div_den q]
    push_cast
    ring
  have hrem := Int.tmod_nonneg (q.den : Int) hn
  rw [hvalue, round_div hn hd]
  simp only [roundRat, if_neg hq.not_gt]
  congr 2
  exact if_congr (by omega) rfl rfl

lemma roundRat_neg {q : ℚ} (hq : 0 < q) (scale : Nat) : roundRat (-q) scale = -roundRat q scale := by
  have hneg : -q < 0 := by linarith
  simp only [roundRat, Rat.neg_num, Rat.neg_den, Int.neg_mul, Int.neg_tdiv, Int.neg_tmod, Int.natAbs_neg, if_pos hneg,
    if_neg hq.not_gt]
  split <;> push_cast <;> ring

lemma roundRat_eq_halfAway (q : ℚ) (scale : Nat) : roundRat q scale = halfAway q scale := by
  unfold halfAway
  split
  · rename_i hq
    have h := roundRat_neg (neg_pos.mpr hq) scale
    rw [neg_neg, roundRat_of_nonneg (q := -q) (by linarith)] at h
    rw [h]
    push_cast
    ring
  · rename_i hq
    exact roundRat_of_nonneg (not_lt.mp hq) scale

lemma floatString_writes (m : Int) (scale : Nat) :
    Writes (floatString (m / 10 ^ scale) scale) scale (m / 10 ^ scale) := by
  generalize hx : (m : ℚ) / 10 ^ scale = x
  have hcross : x.num * 10 ^ scale = m * x.den := by
    have hd : (x.den : ℚ) ≠ 0 := by exact_mod_cast x.den_nz
    have h : (x.num : ℚ) / x.den = m / 10 ^ scale := (Rat.num_div_den x).trans hx.symm
    rw [div_eq_div_iff hd (by positivity)] at h
    exact_mod_cast h
  have habs : x.num.natAbs * 10 ^ scale = m.natAbs * x.den := by
    simpa [Int.natAbs_mul, Int.natAbs_pow] using congrArg Int.natAbs hcross
  have hn : (2 * (x.num.natAbs * 10 ^ scale) + x.den) / (2 * x.den) = m.natAbs := by
    have hfactor : 2 * (m.natAbs * x.den) + x.den = x.den * (2 * m.natAbs + 1) := by ring
    rw [habs, hfactor, Nat.mul_comm 2 x.den, Nat.mul_div_mul_left _ _ x.den_pos]
    omega
  have hdigits : ∀ n, ∀ c ∈ Nat.toDigits 10 n, c.isDigit = true :=
    fun n c hc => Nat.isDigit_of_mem_toDigits (by omega) (by omega) hc
  have hneg : x < 0 ↔ m < 0 := by
    rw [← hx, div_lt_iff₀ (by positivity), zero_mul]
    exact Int.cast_lt_zero
  have hsign : x = (if decide (x < 0) then -1 else 1) * m.natAbs / 10 ^ scale := by
    by_cases hm : m < 0
    · have hcast : (m.natAbs : ℚ) = -m := by rw [Nat.cast_natAbs, abs_of_neg hm, Int.cast_neg]
      simp [hneg.mpr hm, hcast, hx]
    · have hcast : (m.natAbs : ℚ) = m := by rw [Nat.cast_natAbs, abs_of_nonneg (not_lt.mp hm)]
      simp [hneg.not.mpr hm, hcast, hx]
  unfold floatString
  dsimp only
  rw [hn]
  by_cases hscale : scale = 0
  · subst hscale
    refine ⟨x < 0, Nat.toDigits 10 m.natAbs, [], by simp, Nat.toDigits_ne_nil, rfl, by simpa using hdigits _, ?_⟩
    simpa using hsign
  · have hlen : (Nat.toDigits 10 (m.natAbs % 10 ^ scale)).length ≤ scale :=
      (Nat.length_toDigits_le_iff (by omega) (Nat.pos_of_ne_zero hscale)).mpr (Nat.mod_lt _ (by positivity))
    rw [if_neg hscale]
    generalize hfrac : List.replicate _ '0' ++ Nat.toDigits 10 (m.natAbs % 10 ^ scale) = frac
    refine ⟨x < 0, _, frac, by simp only [hscale, decide_eq_true_eq, if_false]; rfl, Nat.toDigits_ne_nil, ?_, ?_, ?_⟩
    all_goals subst hfrac
    · simp [hlen]
    · intro c hc
      simp only [List.mem_append, List.mem_replicate] at hc
      rcases hc with hc | ⟨-, rfl⟩ | hc
      · exact hdigits _ c hc
      · rfl
      · exact hdigits _ c hc
    · rw [Nat.ofDigitChars_append, Nat.ofDigitChars_ten_toDigits, Nat.ofDigitChars_append,
        Nat.ofDigitChars_replicate_zero, Nat.ofDigitChars_eq_ofDigitChars_zero, Nat.ofDigitChars_ten_toDigits,
        ← Nat.mul_assoc, ← Nat.pow_add, Nat.add_sub_cancel' hlen, Nat.div_add_mod]
      exact hsign

/-- The scale of a quotient is the one numeric.c selects, the quotient is rounded to it, and its text shows it. -/
theorem divideRounded_numeric (x y : NumericVar) (hy : y.value ≠ 0) :
    ∃ n, ∀ fuel, n < fuel → ∃ q, divideRounded fuel x.toValue y.toValue = some q ∧
      (q.scale : Int) = x.selectDivScale y ∧ q.rat = halfAway (x.value / y.value) q.scale ∧
      Writes (formatNumeric q) q.scale q.rat := by
  obtain ⟨k, hk⟩ := x.selectDivScale_eq y
  have hden : y.toValue.rat ≠ 0 := hy
  generalize hscale : (x.selectDivScale y).toNat = scale at hk
  refine ⟨k, fun fuel hfuel => ⟨{ rat := roundRat (x.value / y.value) scale, scale }, ?_, ?_, ?_, ?_⟩⟩
  · simp [divideRounded, hk fuel hfuel, hden]
    rfl
  · rw [← hscale]
    exact Int.toNat_of_nonneg (x.selectDivScale_nonneg y)
  · exact roundRat_eq_halfAway _ _
  · exact floatString_writes _ _

/-- A hundred quadrillion and one, halved: a half at the last place, in the scale 0. -/
theorem divideRounded_half :
    let x : NumericVar := ⟨false, [10, 0, 0, 0, 1], 4, 0, by decide⟩
    let y : NumericVar := ⟨false, [2], 0, 0, by decide⟩
    y.value ≠ 0 ∧ ∃ fuel q, divideRounded fuel x.toValue y.toValue = some q ∧ q.scale = 0 ∧
      q.rat = halfAway (x.value / y.value) 0 := by
  intro x y
  have hy : y.value ≠ 0 := by norm_num [y, NumericVar.value, magnitude]
  obtain ⟨n, hn⟩ := divideRounded_numeric x y hy
  obtain ⟨q, hq, hscale, hrat, -⟩ := hn (n + 1) (Nat.lt_succ_self n)
  have hzero : q.scale = 0 := Int.ofNat_inj.mp hscale
  rw [hzero] at hrat
  exact ⟨hy, _, q, hq, hzero, hrat⟩

end PgShard.Scatter
