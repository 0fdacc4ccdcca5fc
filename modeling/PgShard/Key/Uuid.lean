import PgShard.Key.Bigint
import PgShard.Placement.Hash

/-!
# PostgreSQL's uuid input

What uuid's input function accepts, as a grammar, and that the router's reading of a key accepts exactly
that and reads back the text it writes.
-/

namespace PgShard.Key

open Placement

/-- The two digits of a byte. -/
def PairOf (x h l : UInt8) : Prop := IsDigit 16 h (x.toNat / 16) ∧ IsDigit 16 l (x.toNat % 16)

/-- The digits of some bytes; a hyphen may stand where groups of four digits are left. -/
inductive Spelled : List UInt8 → Bytes → Prop
  | nil : Spelled [] []
  | byte {x h l bs s} : PairOf x h l → Spelled bs s → Spelled (x :: bs) (h :: l :: s)
  | hyphen {x h l bs s} : PairOf x h l → bs.length % 2 = 0 ∧ bs.length ≠ 0 → Spelled bs s →
      Spelled (x :: bs) (h :: l :: 45 :: s)

/-- The text that uuid's input function reads as `u`. -/
def UuidText (s : Bytes) (u : List UInt8) : Prop := u.length = 16 ∧ ∃ t, Spelled u t ∧ (s = t ∨ s = 123 :: (t ++ [125]))

variable {x h l : UInt8} {u bs : List UInt8} {s t : Bytes} {left : Nat}

lemma pairOf_iff : PairOf x h l ↔ ∃ hi lo, hexVal h = some hi ∧ hexVal l = some lo ∧ hi <<< 4 ||| lo = x := by
  have hvalue : ∀ a < 16, ∀ b < 16, (UInt8.ofNat a <<< 4 ||| UInt8.ofNat b).toNat = 16 * a + b := by decide
  simp only [hexVal, Option.map_eq_some_iff, digit_eq_some (Nat.le_refl 16), PairOf]
  constructor
  · rintro ⟨hh, hl⟩
    refine ⟨_, _, ⟨_, hh, rfl⟩, ⟨_, hl, rfl⟩, UInt8.toNat_inj.mp ?_⟩
    rw [hvalue _ hh.1 _ hl.1, Nat.div_add_mod]
  · rintro ⟨_, _, ⟨a, hh, rfl⟩, ⟨b, hl, rfl⟩, rfl⟩
    rw [hvalue a hh.1 b hl.1, Nat.mul_add_div (by decide), Nat.div_eq_of_lt hl.1, Nat.mul_add_mod, Nat.mod_eq_of_lt hl.1]
    exact ⟨hh, hl⟩

/-- What the scanner goes on with behind a byte. -/
def afterByte (left : Nat) : Bytes → Bytes
  | 45 :: rest => if left % 2 = 0 ∧ left ≠ 0 then rest else 45 :: rest
  | rest => rest

lemma Spelled.head {c : UInt8} (hs : Spelled bs s) (hc : c = 45 ∨ c = 123) (hhead : s.head? = some c) : False := by
  have hne : ∀ {x h l : UInt8}, PairOf x h l → h ≠ c := by
    rintro x h l ⟨⟨-, hd⟩, -⟩ rfl
    rcases hc with rfl | rfl <;> simp at hd <;> omega
  cases hs with
  | nil => cases hhead
  | byte hx | hyphen hx => exact hne hx (Option.some.inj hhead)

lemma Spelled.afterByte (hs : Spelled bs t) (rest : Bytes) : afterByte bs.length (t ++ rest) = t ++ rest := by
  unfold Key.afterByte
  split
  · rename_i heq
    rw [heq, if_neg]
    rintro ⟨-, hne⟩
    cases t with
    | nil =>
      cases hs
      exact hne rfl
    | cons c t =>
      cases heq
      exact hs.head (.inl rfl) rfl
  · rfl

/-- The scanner reads what spells the bytes, and stops behind it. -/
lemma uuidBytes_iff {rest : Bytes} :
    uuidBytes left s = some (bs, rest) ↔ ∃ t, s = t ++ rest ∧ Spelled bs t ∧ bs.length = left := by
  induction left generalizing s bs with
  | zero =>
    constructor
    · intro hs
      cases hs
      exact ⟨[], rfl, .nil, rfl⟩
    · rintro ⟨t, rfl, hs, hlen⟩
      obtain rfl := List.length_eq_zero_iff.mp hlen
      cases hs
      rfl
  | succ left ih =>
    constructor
    · intro hs
      unfold uuidBytes at hs
      split at hs
      · split at hs
        · rename_i h l rest' _ _ hi lo hh hl
          obtain ⟨⟨bs', _⟩, hrest, heq⟩ := Option.map_eq_some_iff.mp hs
          cases heq
          obtain ⟨t, ht, hs', rfl⟩ := ih.mp hrest
          have hx := pairOf_iff.mpr ⟨hi, lo, hh, hl, rfl⟩
          have hafter : Key.afterByte bs'.length rest' = t ++ rest := ht
          unfold afterByte at hafter
          split at hafter
          · split at hafter
            · exact ⟨h :: l :: 45 :: t, by rw [hafter]; rfl, .hyphen hx ‹_› hs', rfl⟩
            · exact ⟨h :: l :: t, by rw [hafter]; rfl, .byte hx hs', rfl⟩
          · exact ⟨h :: l :: t, by rw [hafter]; rfl, .byte hx hs', rfl⟩
        · cases hs
      · cases hs
    · rintro ⟨t, rfl, hs, hlen⟩
      have hbyte : ∀ {x h l bs t rest'}, PairOf x h l → Spelled bs t → bs.length = left →
          Key.afterByte left rest' = t ++ rest → uuidBytes (left + 1) (h :: l :: rest') = some (x :: bs, rest) := by
        intro x h l bs t rest' hx hs hlen hafter
        obtain ⟨hi, lo, hh, hl, rfl⟩ := pairOf_iff.mp hx
        simp only [uuidBytes, hh, hl]
        exact Option.map_eq_some_iff.mpr ⟨(bs, rest), ih.mpr ⟨t, hafter, hs, hlen⟩, rfl⟩
      cases hs with
      | nil => cases hlen
      | byte hx hs =>
        cases hlen
        exact hbyte hx hs rfl (hs.afterByte rest)
      | hyphen hx hleft hs =>
        cases hlen
        exact hbyte hx hs rfl (if_pos hleft)

lemma parseUUID_iff : parseUUID s = some u ↔ UuidText s u := by
  unfold parseUUID UuidText
  split
  · rename_i rest
    refine Iff.trans (b := uuidBytes 16 rest = some (u, [125])) (by split <;> simp_all) (uuidBytes_iff.trans ?_)
    constructor
    · rintro ⟨t, rfl, ht, hlen⟩
      exact ⟨hlen, t, ht, .inr rfl⟩
    · rintro ⟨hlen, t, ht, rfl | heq⟩
      · exact (ht.head (.inr rfl) rfl).elim
      · exact ⟨t, (List.cons.inj heq).2, ht, hlen⟩
  · rename_i hplain
    refine Iff.trans (b := uuidBytes 16 s = some (u, [])) (by split <;> simp_all) (uuidBytes_iff.trans ?_)
    constructor
    · rintro ⟨t, rfl, ht, hlen⟩
      exact ⟨hlen, t, ht, .inl (List.append_nil t)⟩
    · rintro ⟨hlen, t, ht, rfl | rfl⟩
      · exact ⟨s, (List.append_nil s).symm, ht, hlen⟩
      · exact absurd rfl (hplain _)

lemma pairOf_text (x : UInt8) : PairOf x (hexDigit (x >>> 4)) (hexDigit (x &&& 15)) := by
  have hdigit : ∀ n < 16, digit 16 (hexDigit (UInt8.ofNat n)) = some n := by decide
  have hx := x.toNat_lt
  have hhigh : x >>> 4 = UInt8.ofNat (x.toNat / 16) := UInt8.toNat_inj.mp (by simp [Nat.shiftRight_eq_div_pow]; omega)
  have hlow : x &&& 15 = UInt8.ofNat (x.toNat % 16) :=
    UInt8.toNat_inj.mp (by simp [Nat.and_two_pow_sub_one_eq_mod x.toNat 4]; omega)
  simp only [PairOf, ← digit_eq_some (Nat.le_refl 16), hhigh, hlow]
  exact ⟨hdigit _ (by omega), hdigit _ (by omega)⟩

lemma UuidText.canonical (hu : u.length = 16) : UuidText (uuidText u) u := by
  match u, hu with
  | [a, b, c, d, e, f, g, h, i, j, k, l, m, n, o, p], _ =>
    refine ⟨rfl, _, ?_, .inl rfl⟩
    simp only [uuidText, List.zipIdx]
    repeat first
      | exact .nil
      | refine .hyphen (pairOf_text _) (by simp) ?_
      | refine .byte (pairOf_text _) ?_

/-- `ParseUUID` accepts what PostgreSQL does and gives the same bytes, it reads the text of every uuid
back, and two spellings of one uuid have one position. -/
theorem uuid_read_as_postgres_reads_it : (∀ (s : Bytes) (u : List UInt8), parseUUID s = some u ↔ UuidText s u) ∧
      (∀ u : Vector UInt8 16, parseUUID (uuidText u.toList) = some u.toList) ∧
      ∀ (s s' : Bytes) (u : List UInt8), UuidText s u → UuidText s' u →
        keyspaceID (normaliseKey (.text s) "uuid") = keyspaceID (normaliseKey (.text s') "uuid") := by
  refine ⟨fun s u => parseUUID_iff, fun u => parseUUID_iff.mpr (UuidText.canonical (by simp)), ?_⟩
  intro s s' u hs hs'
  have htype : parseCharType "uuid" = ("uuid", none) := by decide +kernel
  simp [normaliseKey, htype, parseUUID_iff.mpr hs, parseUUID_iff.mpr hs']

end PgShard.Key
