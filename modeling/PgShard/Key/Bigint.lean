import PgShard.Key.Literal

/-!
# PostgreSQL's bigint input

What bigint's input function accepts, as a grammar, and that the router's reading of a key accepts
exactly that.
-/

namespace PgShard.Key

/-- The digit of a base. -/
def IsDigit (base : Nat) (c : UInt8) (d : Nat) : Prop :=
  d < base ∧ (c.toNat = 48 + d ∧ d < 10 ∨ (c.toNat = 87 + d ∨ c.toNat = 55 + d) ∧ 10 ≤ d ∧ d < 16)

/-- Digits, each but the first of a decimal number with an underscore before it or not. `must` is
whether a digit has to come. -/
inductive Digits (base : Nat) : Bool → Bytes → List Nat → Prop
  | nil : Digits base false [] []
  | digit {must c d rest ds} : IsDigit base c d → Digits base false rest ds → Digits base must (c :: rest) (d :: ds)
  | underscore {rest ds} : Digits base true rest ds → Digits base false (95 :: rest) ds

/-- The value of digits that follow a number. -/
def valueFrom (base v : Nat) (ds : List Nat) : Nat := ds.foldl (fun v d => v * base + d) v

def signs : List (Bytes × Bool) := [([], false), ([43], false), ([45], true)]

def radixes : List (Bytes × Nat) :=
  [([], 10), ([48, 120], 16), ([48, 88], 16), ([48, 111], 8), ([48, 79], 8), ([48, 98], 2), ([48, 66], 2)]

/-- The text that bigint's input function reads as `i`. -/
structure BigintText (s : Bytes) (i : Int) : Prop where
  reads : ∃ lead sign neg radix base body ds trail, s = lead ++ sign ++ radix ++ body ++ trail ∧
    (∀ c ∈ lead ++ trail, isCSpace c = true) ∧ (sign, neg) ∈ signs ∧ (radix, base) ∈ radixes ∧
    Digits base false body ds ∧ ds ≠ [] ∧ (base = 10 → body.head? ≠ some 95) ∧
    i = if neg then -(valueFrom base 0 ds : Int) else valueFrom base 0 ds
  range : -2 ^ 63 ≤ i ∧ i < 2 ^ 63

variable {base v d : Nat} {c : UInt8} {s body rest trail : Bytes} {ds : List Nat} {must f : Bool}

lemma digit_eq_some (hbase : base ≤ 16) : digit base c = some d ↔ IsDigit base c d := by
  simp only [digit, IsDigit, Option.filter_eq_some_iff, decide_eq_true_eq]
  split_ifs <;> simp only [Option.some.injEq, false_and, false_iff] <;> omega

lemma le_valueFrom (hbase : 0 < base) (v : Nat) (ds : List Nat) : v ≤ valueFrom base v ds := by
  induction ds generalizing v with
  | nil => exact Nat.le_refl v
  | cons d ds ih =>
    have hle : v ≤ v * base + d := (Nat.le_mul_of_pos_right v hbase).trans (Nat.le_add_right _ _)
    exact hle.trans (ih (v * base + d))

/-- The overflow test compares the number with the digit against the limit. -/
lemma within_limit (hbase : 0 < base) (hd : d < base) (hle : base ≤ 16) :
    ¬ v > (intLimit - d) / base ↔ v * base + d ≤ intLimit := by
  have hlimit : (16 : Nat) ≤ intLimit := by decide
  rw [Nat.not_lt, Nat.le_div_iff_mul_le hbase]
  omega

/-- What the loop accepts is digits, and their value is in range. -/
lemma digits_sound (hbase : 0 < base) (hle : base ≤ 16) {v' : Nat} {nothing : Bool}
    (h : digits base f v s = .ok (v', rest, nothing)) (hv : v ≤ intLimit) :
    ∃ body ds, s = body ++ rest ∧ v' = valueFrom base v ds ∧ v' ≤ intLimit ∧ nothing = (f && ds.isEmpty) ∧
      (base = 10 → f = true → body.head? ≠ some 95) ∧
      ∀ must, (must = true → (s.head?.bind (digit base)).isSome = true) → Digits base must body ds := by
  fun_induction digits base f v s with
  | case1 f v =>
    cases h
    exact ⟨[], [], rfl, rfl, hv, by simp, by simp, fun must hm => by cases must <;> simp_all [Digits.nil]⟩
  | case2 => cases h
  | case3 f v c s d hc hin ih =>
    have hd := (digit_eq_some hle).mp hc
    obtain ⟨body, ds, rfl, hval, hlim, hno, -, hds⟩ := ih h ((within_limit hbase hd.1 hle).mp hin)
    refine ⟨c :: body, d :: ds, rfl, hval, hlim, by simp [hno], ?_, fun must _ => .digit hd (hds false nofun)⟩
    rintro - - heq
    obtain rfl := Option.some.inj heq
    cases hc.symm.trans (show digit base 95 = none by simp [digit])
  | case4 f v c s hc hne =>
    cases h
    exact ⟨[], [], rfl, rfl, hv, by simp, by simp, fun must hm => by cases must <;> simp_all [Digits.nil]⟩
  | case5 => cases h
  | case6 => cases h
  | case7 => cases h
  | case8 f v c hc hne hfirst c' s hdigit ih =>
    have hunder : c = 95 := UInt8.toNat_inj.mp (by simpa using hne)
    obtain ⟨body, ds, hs, hval, hlim, hno, -, hds⟩ := ih h hv
    have hbody : Digits base true body ds := hds true fun _ => by simpa [Option.isSome_iff_ne_none] using hdigit
    refine ⟨c :: body, ds, by rw [hs]; rfl, hval, hlim, ?_, ?_, fun must hm => ?_⟩
    · cases hbody
      simp [hno]
    · exact fun hten hf => absurd ⟨hten, hf⟩ hfirst
    · cases must with
      | true => simp [hc] at hm
      | false => exact hunder ▸ .underscore hbody

/-- What follows the digits of a number is not read as one. -/
def Stops (base : Nat) (trail : Bytes) : Prop := ∀ c ∈ trail.head?, digit base c = none ∧ c ≠ 95

/-- Digits whose value is in range are accepted. -/
lemma digits_complete (hbase : 0 < base) (hle : base ≤ 16) (h : Digits base must body ds)
    (hstop : Stops base trail) (hlim : valueFrom base v ds ≤ intLimit)
    (hfirst : base = 10 → f = true → body.head? ≠ some 95) :
    digits base f v (body ++ trail) = .ok (valueFrom base v ds, trail, f && ds.isEmpty) := by
  induction h generalizing v f with
  | nil =>
    cases trail with
    | nil => simp [digits, valueFrom]
    | cons c trail =>
      obtain ⟨hc, hne⟩ := hstop c rfl
      have hne' : c.toNat ≠ 95 := fun heq => hne (UInt8.toNat_inj.mp heq)
      simp [digits, hc, hne', valueFrom]
  | @digit must c d rest ds hd hrest ih =>
    have hin : v * base + d ≤ intLimit := (le_valueFrom hbase _ ds).trans hlim
    have hloop := ih (f := false) hlim nofun
    rw [List.cons_append]
    unfold digits
    simp [(digit_eq_some hle).mpr hd, (within_limit hbase hd.1 hle).mpr hin, hloop, valueFrom]
  | @underscore rest ds hrest ih =>
    have hloop := ih (f := false) hlim nofun
    have hno : digit base 95 = none := by simp [digit]
    have hf : ¬ (base = 10 ∧ f = true) := fun ⟨hten, hf⟩ => hfirst hten hf rfl
    cases hrest with
    | @digit _ c d rest ds hd hrest =>
      rw [List.cons_append] at hloop ⊢
      rw [List.cons_append]
      unfold digits
      simp only [hno]
      simpa [hf, (digit_eq_some hle).mpr hd] using hloop

lemma signOf_spec (b : Bytes) : ∃ sign, b = sign ++ (signOf b).2 ∧ (sign, (signOf b).1) ∈ signs := by
  unfold signOf
  split
  · exact ⟨[45], rfl, by simp [signs]⟩
  · exact ⟨[43], rfl, by simp [signs]⟩
  · exact ⟨[], rfl, by simp [signs]⟩

lemma basePrefix_spec (b : Bytes) : ∃ radix, b = radix ++ (basePrefix b).2 ∧ (radix, (basePrefix b).1) ∈ radixes := by
  unfold basePrefix
  split <;> first
    | exact ⟨[], rfl, by simp [radixes]⟩
    | exact ⟨[_, _], rfl, by simp [radixes]⟩

lemma radixes_spec : ∀ r ∈ radixes, 0 < r.2 ∧ r.2 ≤ 16 ∧ ∀ c ∈ r.1.head?, 48 ≤ c.toNat := by decide +kernel

lemma signs_spec : ∀ r ∈ signs, ∀ c ∈ r.1.head?, isCSpace c = false := by decide +kernel

/-- Every byte of a number. -/
lemma Digits.bytes (h : Digits base must body ds) (hc : c ∈ body) : c = 95 ∨ ∃ d, IsDigit base c d := by
  induction h with
  | nil => cases hc
  | digit hd _ ih =>
    rcases List.mem_cons.mp hc with rfl | hc
    · exact .inr ⟨_, hd⟩
    · exact ih hc
  | underscore _ ih =>
    rcases List.mem_cons.mp hc with rfl | hc
    · exact .inl rfl
    · exact ih hc

lemma isCSpace_iff : isCSpace c = true ↔ c.toNat = 32 ∨ 9 ≤ c.toNat ∧ c.toNat ≤ 13 := by
  simp only [isCSpace, List.contains_eq_mem, List.mem_cons, List.not_mem_nil, or_false, decide_eq_true_eq]
  omega

lemma stops_of_space (hle : base ≤ 16) (hspace : ∀ c ∈ trail, isCSpace c = true) : Stops base trail := by
  intro c hc
  have hcode := isCSpace_iff.mp (hspace c (List.mem_of_mem_head? hc))
  constructor
  · rw [Option.eq_none_iff_forall_ne_some]
    intro d hd
    have hdigit := (digit_eq_some hle).mp hd
    unfold IsDigit at hdigit
    omega
  · rintro rfl
    exact absurd hcode (by decide)

lemma dropWhile_lead {lead b : Bytes} (hlead : ∀ c ∈ lead, isCSpace c = true)
    (hhead : ∀ c ∈ b.head?, isCSpace c = false) : (lead ++ b).dropWhile isCSpace = b := by
  rw [List.dropWhile_append_of_pos hlead]
  cases b with
  | nil => rfl
  | cons c b => exact List.dropWhile_cons_of_neg (by simp [hhead c rfl])

lemma signOf_append {sign b : Bytes} {neg : Bool} (hsign : (sign, neg) ∈ signs)
    (hhead : ∀ c ∈ b.head?, c ≠ 43 ∧ c ≠ 45) : signOf (sign ++ b) = (neg, b) := by
  simp only [signs, List.mem_cons, Prod.mk.injEq, List.not_mem_nil, or_false] at hsign
  rcases hsign with ⟨rfl, rfl⟩ | ⟨rfl, rfl⟩ | ⟨rfl, rfl⟩
  · rw [List.nil_append]
    unfold signOf
    split
    · simp at hhead
    · simp at hhead
    · rfl
  · rfl
  · rfl

/-- A decimal number does not look like one of another base. -/
lemma basePrefix_append {radix b : Bytes} (hradix : (radix, base) ∈ radixes)
    (hten : base = 10 → ∀ c ∈ b.tail.head?, c.toNat < 66 ∨ c = 95) : basePrefix (radix ++ b) = (base, b) := by
  simp only [radixes, List.mem_cons, Prod.mk.injEq, List.not_mem_nil, or_false] at hradix
  rcases hradix with ⟨rfl, rfl⟩ | ⟨rfl, rfl⟩ | ⟨rfl, rfl⟩ | ⟨rfl, rfl⟩ | ⟨rfl, rfl⟩ | ⟨rfl, rfl⟩ | ⟨rfl, rfl⟩
  · rw [List.nil_append]
    unfold basePrefix
    split <;> first
      | rfl
      | exact absurd (hten rfl _ rfl) (by decide)
  all_goals rfl

lemma bigintText_of_read {i : Int} (h : pgStrToInt64 s = .ok i) : BigintText s i := by
  obtain ⟨sign, hb, hsign⟩ := signOf_spec (s.dropWhile isCSpace)
  obtain ⟨radix, hn, hradix⟩ := basePrefix_spec (signOf (s.dropWhile isCSpace)).2
  obtain ⟨hbase, hle, -⟩ := radixes_spec _ hradix
  unfold pgStrToInt64 at h
  dsimp only at h
  split at h
  · cases h
  · rename_i v rest nothing hdigits
    obtain ⟨body, ds, hs, hv, hlim, hno, hfirst, hds⟩ := digits_sound hbase hle hdigits (Nat.zero_le _)
    split at h
    · cases h
    · rename_i hsome
      split at h
      · cases h
      · rename_i hrest
        have hblank : ∀ c ∈ rest, isCSpace c = true := List.dropWhile_eq_nil_iff.mp (by simpa using hrest)
        have hreads : ∀ i : Int, i = (if (signOf (s.dropWhile isCSpace)).1 then -(v : Int) else v) →
            -2 ^ 63 ≤ i ∧ i < 2 ^ 63 → BigintText s i := by
          intro i hi hrange
          refine ⟨⟨s.takeWhile isCSpace, sign, _, radix, _, body, ds, rest, ?_, ?_, hsign, hradix, hds false nofun, ?_,
            fun hten => hfirst hten rfl, hv ▸ hi⟩, hrange⟩
          · rw [List.append_assoc, List.append_assoc, List.append_assoc, ← hs, ← hn, ← hb, List.takeWhile_append_dropWhile]
          · intro c hc
            rcases List.mem_append.mp hc with hc | hc
            · exact List.mem_takeWhile_imp hc
            · exact hblank c hc
          · rintro rfl
            simp [hno] at hsome
        unfold intLimit at hlim h
        split at h
        · rename_i hneg
          cases h
          exact hreads _ (by rw [if_pos hneg]) (by omega)
        · rename_i hneg
          split at h
          · cases h
          · cases h
            exact hreads _ (by rw [if_neg hneg]) (by omega)

lemma read_of_bigintText {i : Int} (h : BigintText s i) : pgStrToInt64 s = .ok i := by
  obtain ⟨⟨lead, sign, neg, radix, base, body, ds, trail, rfl, hspace, hsign, hradix, hds, hne, hfirst, rfl⟩, hrange⟩ := h
  obtain ⟨hbase, hle, hradix₀⟩ := radixes_spec _ hradix
  have hdigit : ∀ c ∈ body, 48 ≤ c.toNat ∧ (base = 10 → c.toNat < 66 ∨ c = 95) := by
    intro c hc
    rcases hds.bytes hc with rfl | ⟨d, hlt, hd⟩
    · exact ⟨by decide, fun _ => .inr rfl⟩
    · exact ⟨by omega, fun hten => .inl (by omega)⟩
  obtain ⟨c₀, body', rfl⟩ : ∃ c₀ body', body = c₀ :: body' := by
    cases hds with
    | nil => exact absurd rfl hne
    | digit | underscore => exact ⟨_, _, rfl⟩
  have hhead : ∀ c ∈ (radix ++ (c₀ :: body' ++ trail)).head?, 48 ≤ c.toNat := by
    cases radix with
    | nil =>
      rintro c ⟨⟩
      exact (hdigit c₀ List.mem_cons_self).1
    | cons r radix => exact hradix₀
  have hsigned : ∀ c ∈ (sign ++ (radix ++ (c₀ :: body' ++ trail))).head?, isCSpace c = false := by
    cases sign with
    | nil =>
      intro c hc
      have hle := hhead c hc
      rw [← Bool.not_eq_true, isCSpace_iff]
      omega
    | cons r sign => exact signs_spec _ hsign
  have hblank : ∀ c ∈ trail, isCSpace c = true := fun c hc => hspace c (List.mem_append_right _ hc)
  have hlim : valueFrom base 0 ds ≤ intLimit ∧ (neg = false → valueFrom base 0 ds ≠ intLimit) := by
    unfold intLimit
    cases neg with
    | false =>
      rw [if_neg (by decide)] at hrange
      exact ⟨by omega, fun _ => by omega⟩
    | true =>
      rw [if_pos rfl] at hrange
      exact ⟨by omega, nofun⟩
  have hloop := digits_complete hbase hle (f := true) hds (stops_of_space hle hblank) hlim.1 fun hten _ => hfirst hten
  have hdrop := dropWhile_lead (fun c hc => hspace c (List.mem_append_left _ hc)) hsigned
  have hrest := signOf_append hsign fun c hc => (show c ≠ 43 ∧ c ≠ 45 by
    have hle := hhead c hc
    constructor <;> rintro rfl <;> exact absurd hle (by decide))
  have hnumber := basePrefix_append (b := c₀ :: body' ++ trail) hradix fun hten c hc => by
    cases body' with
    | nil =>
      have hcode := isCSpace_iff.mp (hblank c (List.mem_of_mem_head? hc))
      omega
    | cons c₁ body' =>
      obtain rfl : c₁ = c := by simpa using hc
      exact (hdigit c₁ (by simp)).2 hten
  have hend : trail.dropWhile isCSpace = [] := List.dropWhile_eq_nil_iff.mpr hblank
  unfold pgStrToInt64
  simp only [List.append_assoc] at hdrop hrest hnumber hloop ⊢
  simp only [hdrop, hrest, hnumber, hloop, hend]
  cases neg <;> simp_all

/-- The router reads a key as a bigint exactly when bigint's input function accepts its text, and then
as the same number. -/
theorem pgStrToInt64_reads_bigint (s : Bytes) (i : Int) : pgStrToInt64 s = .ok i ↔ BigintText s i :=
  ⟨bigintText_of_read, read_of_bigintText⟩

end PgShard.Key
