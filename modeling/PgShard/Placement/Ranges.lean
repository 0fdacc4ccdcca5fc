import PgShard.Search.Least

/-!
# The ranges of the key space

A range set cuts the key space of 64-bit integers into adjacent ranges, each owned by a
shard. A valid set gives every position exactly one owner, and the lookup finds it.
-/

namespace PgShard.Placement

open Search

def minKey : Int := -2 ^ 63
def maxKey : Int := 2 ^ 63 - 1

/-- An interval of the key space with both its ends, and the shard that owns it. -/
structure Range where
  start : Int
  stop : Int
  shardID : Nat
  deriving DecidableEq, Repr

def Range.contains (r : Range) (id : Int) : Bool := r.start ≤ id && id ≤ r.stop

inductive RangeError where
  | empty
  | inverted (i : Nat)
  | bottom (r : Range)
  | gap (before after : Range)
  | top (r : Range)
  deriving DecidableEq, Repr

/-- The first two neighbours that do not meet. -/
def firstGap : List Range → Option (Range × Range)
  | r :: r' :: rest =>
    if r.stop = maxKey ∨ r'.start ≠ r.stop + 1 then some (r, r') else firstGap (r' :: rest)
  | _ => none

/-- A range set has to cover the key space from the bottom to the top, without gap or
overlap. -/
def validate (ranges : List Range) : Except RangeError Unit :=
  match ranges.head?, ranges.getLast? with
  | some first, some last =>
    match ranges.findIdx? fun r => r.start > r.stop with
    | some i => .error (.inverted i)
    | none =>
      if first.start ≠ minKey then .error (.bottom first)
      else match firstGap ranges with
        | some (r, r') => .error (.gap r r')
        | none => if last.stop ≠ maxKey then .error (.top last) else .ok ()
  | _, _ => .error .empty

/-- The shard that owns a position; `none` when no range does. -/
def locate (ranges : List Range) (id : Int) : Option Nat :=
  match ranges[least (fun i => ranges[i]?.any (id ≤ ·.stop)) 0 ranges.length]? with
  | none => none
  | some r => if r.start > id then none else some r.shardID

/-- Maps an offset from the bottom of the key space back to a signed key. -/
def fromOffset (u : Nat) : Int := (BitVec.ofNat 64 u ^^^ 1#64 <<< 63).toInt

/-- The loop of `Split` over the last `left` ranges. Its numbers are 64-bit words. -/
def splitFrom (width rem i start : Nat) : Nat → List Range
  | 0 => []
  | left + 1 =>
    let size := if i < rem then (width + 1) % 2 ^ 64 else width
    let stop := (start + size + (2 ^ 64 - 1)) % 2 ^ 64
    ⟨fromOffset start, fromOffset stop, i⟩ :: splitFrom width rem (i + 1) ((stop + 1) % 2 ^ 64) left

/-- `Split`, with the shards numbered as `MaterializeShardSet` writes them. -/
def split (n : Int) : Except String (List Range) :=
  if n ≤ 0 then .error s!"placement: split into {n} ranges"
  else
    -- The key space has 2^64 keys, one more than a word holds.
    let width := (2 ^ 64 - 1) / n.toNat
    let rem := (2 ^ 64 - 1) % n.toNat + 1
    .ok (if rem = n.toNat then splitFrom ((width + 1) % 2 ^ 64) 0 0 0 n.toNat else splitFrom width rem 0 0 n.toNat)

/-- The ranges follow one another from `lo` to the top of the key space. -/
def Covers : Int → List Range → Prop
  | lo, [] => lo = maxKey + 1
  | lo, r :: rest => r.start = lo ∧ r.start ≤ r.stop ∧ Covers (r.stop + 1) rest

theorem covers_of_meet {r : Range} {rest : List Range} (hord : ∀ x ∈ r :: rest, x.start ≤ x.stop)
    (hgap : firstGap (r :: rest) = none) (hlast : ((r :: rest).getLast (by simp)).stop = maxKey) :
    Covers r.start (r :: rest) := by
  induction rest generalizing r with
  | nil =>
    have : r.stop = maxKey := by simpa using hlast
    exact ⟨rfl, hord r (by simp), by rw [Covers, this]⟩
  | cons r' rest ih =>
    unfold firstGap at hgap
    split at hgap
    · cases hgap
    next hmeet =>
      simp only [not_or, ne_eq, Decidable.not_not] at hmeet
      refine ⟨rfl, hord r (by simp), ?_⟩
      rw [← hmeet.2]
      apply ih
      · intro x hx
        exact hord x (.tail _ hx)
      · exact hgap
      · simpa using hlast

variable {ranges : List Range}

theorem validate_covers (h : validate ranges = .ok ()) : Covers minKey ranges := by
  cases ranges with
  | nil => cases h
  | cons r rest =>
    have hne : r :: rest ≠ [] := by simp
    simp only [validate, List.head?_cons, List.getLast?_eq_some_getLast hne] at h
    split at h
    · cases h
    next hinv =>
    split at h
    · cases h
    next hbottom =>
    split at h
    · cases h
    next hgap =>
    split at h
    · cases h
    next htop =>
    have hord : ∀ x ∈ r :: rest, x.start ≤ x.stop := by
      intro x hx
      have := List.findIdx?_eq_none_iff.mp hinv x hx
      simpa using this
    rw [← Decidable.not_not.mp hbottom]
    exact covers_of_meet hord hgap (Decidable.not_not.mp htop)

theorem Covers.start_le {lo : Int} (h : Covers lo ranges) : ∀ r ∈ ranges, lo ≤ r.start ∧ r.start ≤ r.stop := by
  induction ranges generalizing lo with
  | nil => simp
  | cons r rest ih =>
    obtain ⟨hstart, hord, hrest⟩ := h
    intro r' hr'
    cases List.mem_cons.mp hr' with
    | inl heq =>
      subst heq
      omega
    | inr hmem =>
      have := ih hrest r' hmem
      omega

/-- Some place of the list holds a position: the ranges before it end before the position, the
ones after it start behind. -/
theorem Covers.place {lo id : Int} (h : Covers lo ranges) (hlo : lo ≤ id) (hid : id ≤ maxKey) :
    ∃ k, k < ranges.length ∧ ∀ (m : Nat) (r : Range), ranges[m]? = some r →
      (id ≤ r.stop ↔ k ≤ m) ∧ (r.start ≤ id ↔ m ≤ k) := by
  induction ranges generalizing lo with
  | nil =>
    rw [Covers] at h
    omega
  | cons r rest ih =>
    obtain ⟨hstart, hord, hrest⟩ := h
    by_cases hin : id ≤ r.stop
    · refine ⟨0, by simp, ?_⟩
      intro m r' hm
      cases m with
      | zero =>
        cases hm
        omega
      | succ m =>
        have := hrest.start_le r' (List.mem_of_getElem? hm)
        omega
    · obtain ⟨k, hk, hplace⟩ := ih hrest (by omega)
      refine ⟨k + 1, by simpa using hk, ?_⟩
      intro m r' hm
      cases m with
      | zero =>
        cases hm
        omega
      | succ m =>
        have := hplace m r' hm
        omega

/-- In a valid set a position has one owner, and the lookup finds it. -/
theorem locate_owner {id : Int} (hv : validate ranges = .ok ()) (hlo : minKey ≤ id) (hid : id ≤ maxKey) :
    ∃ r ∈ ranges, r.contains id = true ∧ locate ranges id = some r.shardID ∧
      ∀ r' ∈ ranges, r'.contains id = true → r' = r := by
  obtain ⟨k, hk, hplace⟩ := (validate_covers hv).place hlo hid
  have hget := List.getElem?_eq_getElem hk
  have hhere := hplace k _ hget
  have hleast : least (fun i => ranges[i]?.any (id ≤ ·.stop)) 0 ranges.length = k := by
    apply least_eq (n := ranges.length)
    · intro m hm
      have hm' := List.getElem?_eq_getElem hm
      rw [hm', ← (hplace m _ hm').1]
      simp
    · exact Nat.zero_le _
    · exact Nat.le_of_lt hk
    · exact .refl
  refine ⟨ranges[k], List.getElem_mem hk, ?_, ?_, ?_⟩
  · simp only [Range.contains, Bool.and_eq_true, decide_eq_true_eq]
    omega
  · rw [locate, hleast, hget]
    exact if_neg (by omega)
  · intro r' hr' hc
    obtain ⟨m, hm⟩ := List.mem_iff_getElem?.mp hr'
    have hthere := hplace m r' hm
    simp only [Range.contains, Bool.and_eq_true, decide_eq_true_eq] at hc
    have hmk : m = k := by omega
    rw [hmk, hget] at hm
    exact (Option.some.inj hm).symm

theorem fromOffset_eq {u : Nat} (hu : u < 2 ^ 64) : fromOffset u = u - 2 ^ 63 := by
  have hlow : (BitVec.ofNat 64 u ^^^ 1#64 <<< 63).toNat % 2 ^ 63 = u % 2 ^ 63 := by
    rw [← BitVec.toNat_setWidth, BitVec.setWidth_xor]
    simp
  have hmsb : (BitVec.ofNat 64 u ^^^ 1#64 <<< 63).msb = !(BitVec.ofNat 64 u).msb := by
    rw [BitVec.msb_xor, show (1#64 <<< 63).msb = true by decide, Bool.xor_true]
  have hlt := (BitVec.ofNat 64 u ^^^ 1#64 <<< 63).isLt
  rw [fromOffset, BitVec.toInt_eq_msb_cond]
  generalize BitVec.ofNat 64 u ^^^ 1#64 <<< 63 = v at *
  simp only [BitVec.msb_eq_decide, BitVec.toNat_ofNat, Nat.mod_eq_of_lt hu] at hmsb ⊢
  grind

/-- What is left of the key space is `left` ranges of `w` keys, and one more key for each of the first `r`. -/
theorem splitFrom_covers {w r : Nat} (hw : 0 < w) (left i start : Nat) (hall : start + left * w + (r - i) = 2 ^ 64)
    (hr : r ≤ i + left) :
    Covers (start - 2 ^ 63) (splitFrom (w % 2 ^ 64) r i (start % 2 ^ 64) left) ∧
      ∀ x ∈ splitFrom (w % 2 ^ 64) r i (start % 2 ^ 64) left, x.stop - x.start + 1 = w ∨ x.stop - x.start = w := by
  induction left generalizing i start with
  | zero =>
    constructor
    · simp only [splitFrom, Covers, maxKey]
      omega
    · simp [splitFrom]
  | succ left ih =>
    rw [Nat.succ_mul] at hall
    generalize hone : (if i < r then 1 else 0) = one
    have hsize : (if i < r then (w % 2 ^ 64 + 1) % 2 ^ 64 else w % 2 ^ 64) = (w + one) % 2 ^ 64 := by grind
    obtain ⟨hcovers, hsizes⟩ := ih (i + 1) (start + w + one) (by grind) (by omega)
    have hstart : start % 2 ^ 64 = start := by omega
    have hstop : (start + (w + one) % 2 ^ 64 + (2 ^ 64 - 1)) % 2 ^ 64 = start + w + one - 1 := by grind
    have hnext : start + w + one - 1 + 1 = start + w + one := by omega
    simp only [splitFrom, hstart, hsize, hstop, hnext, Covers, List.forall_mem_cons]
    rw [fromOffset_eq (by omega), fromOffset_eq (by grind)]
    refine ⟨⟨rfl, by omega, ?_⟩, by grind, hsizes⟩
    rwa [show ((start + w + one - 1 : Nat) : Int) - 2 ^ 63 + 1 = (start + w + one : Nat) - 2 ^ 63 by omega]

theorem Covers.meet {r : Range} {rest : List Range} {lo : Int} (h : Covers lo (r :: rest)) :
    firstGap (r :: rest) = none ∧ ((r :: rest).getLast (by simp)).stop = maxKey ∧ lo ≤ maxKey := by
  induction rest generalizing r lo with
  | nil =>
    obtain ⟨hstart, hord, htop⟩ := h
    exact ⟨rfl, by simpa [Covers] using htop, by rw [Covers] at htop; omega⟩
  | cons r' rest ih =>
    obtain ⟨hstart, hord, hrest⟩ := h
    obtain ⟨hgap, hlast, hle⟩ := ih hrest
    refine ⟨?_, by simpa using hlast, by omega⟩
    rw [firstGap, if_neg ?_, hgap]
    have := hrest.1
    omega

theorem validate_of_covers (h : Covers minKey ranges) : validate ranges = .ok () := by
  cases ranges with
  | nil => cases h
  | cons r rest =>
    have hne : r :: rest ≠ [] := by simp
    obtain ⟨hgap, hlast, -⟩ := h.meet
    have hinv : (r :: rest).findIdx? (fun r => r.start > r.stop) = none :=
      List.findIdx?_eq_none_iff.mpr fun x hx => by simpa using (h.start_le x hx).2
    simp only [validate, List.head?_cons, List.getLast?_eq_some_getLast hne, hinv, h.1, hgap, hlast]
    rfl

theorem splitFrom_length (width rem i start left : Nat) : (splitFrom width rem i start left).length = left := by
  induction left generalizing i start with
  | zero => rfl
  | succ left ih => simp [splitFrom, ih]

/-- Any number of shards gets as many ranges. They are valid, so each key has its shard, and none has over one key more
than another. -/
theorem split_valid (n : Int) (hn : 0 < n) (hint : n < 2 ^ 63) : ∃ ranges, split n = .ok ranges ∧
    ranges.length = n ∧ validate ranges = .ok () ∧
    (∀ id, minKey ≤ id → id ≤ maxKey → ∃ r ∈ ranges, r.contains id = true ∧ locate ranges id = some r.shardID) ∧
    ∀ r ∈ ranges, ∀ r' ∈ ranges, r.stop - r.start ≤ r'.stop - r'.start + 1 := by
  have hdiv := Nat.div_add_mod (2 ^ 64 - 1) n.toNat
  have hmod := Nat.mod_lt (2 ^ 64 - 1) (show 0 < n.toNat by omega)
  have hpos : 0 < (2 ^ 64 - 1) / n.toNat := Nat.div_pos (by omega) (by omega)
  have hword : (2 ^ 64 - 1) / n.toNat % 2 ^ 64 = (2 ^ 64 - 1) / n.toNat :=
    Nat.mod_eq_of_lt (Nat.lt_of_le_of_lt (Nat.div_le_self _ _) (by omega))
  obtain ⟨w, r, hw, hall, hr, hsplit⟩ : ∃ w r, 0 < w ∧ 0 + n.toNat * w + (r - 0) = 2 ^ 64 ∧ r ≤ 0 + n.toNat ∧
      split n = .ok (splitFrom (w % 2 ^ 64) r 0 (0 % 2 ^ 64) n.toNat) := by
    rw [split, if_neg (by omega)]
    by_cases hrem : (2 ^ 64 - 1) % n.toNat + 1 = n.toNat
    · refine ⟨(2 ^ 64 - 1) / n.toNat + 1, 0, Nat.succ_pos _, ?_, Nat.zero_le _, congrArg _ (if_pos hrem)⟩
      rw [Nat.mul_succ]
      omega
    · refine ⟨(2 ^ 64 - 1) / n.toNat, (2 ^ 64 - 1) % n.toNat + 1, hpos, by omega, by omega, ?_⟩
      rw [hword]
      exact congrArg _ (if_neg hrem)
  obtain ⟨hcovers, hsizes⟩ := splitFrom_covers hw n.toNat 0 0 hall hr
  have hvalid := validate_of_covers hcovers
  refine ⟨_, hsplit, ?_, hvalid, fun id hlo hid => ?_, fun a ha b hb => ?_⟩
  · rw [splitFrom_length]
    omega
  · obtain ⟨r, hr, hin, hfound, -⟩ := locate_owner hvalid hlo hid
    exact ⟨r, hr, hin, hfound⟩
  · have := hsizes a ha
    have := hsizes b hb
    omega

theorem split_valid_three : ∃ ranges, split 3 = .ok ranges ∧ validate ranges = .ok () := by
  obtain ⟨ranges, hsplit, -, hvalid, -⟩ := split_valid 3 (by decide) (by decide)
  exact ⟨ranges, hsplit, hvalid⟩

end PgShard.Placement
