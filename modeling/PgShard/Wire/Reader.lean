import PgShard.Wire.Bytes

/-!
# Readers

A reader takes bytes off the front of its input or fails. `Exact p L` says what `p` reads and that it reads
nothing else: `L a used rest` holds where `a` is laid out as the bytes `used` and `rest` follows them.
-/

namespace PgShard.Wire

variable {ε A B : Type}

abbrev Reader (ε A : Type) := StateT Bytes (Except ε) A

def Exact (p : Reader ε A) (L : A → Bytes → Bytes → Prop) : Prop :=
  ∀ data a rest, p data = .ok (a, rest) ↔ ∃ used, data = used ++ rest ∧ L a used rest

/-- What is read is laid out by `L`. -/
def Sound (p : Reader ε A) (L : A → Bytes → Bytes → Prop) : Prop :=
  ∀ data a rest, p data = .ok (a, rest) → ∃ used, data = used ++ rest ∧ L a used rest

variable {p q : Reader ε A} {L : A → Bytes → Bytes → Prop} {f : A → Reader ε B} {M : B → Bytes → Bytes → Prop}

namespace Sound

lemma pure {a : A} (h : ∀ rest, L a [] rest) : Sound (pure a : Reader ε A) L := by
  intro data b rest hdata
  cases hdata
  exact ⟨[], rfl, h _⟩

lemma imp {L' : A → Bytes → Bytes → Prop} (h : Sound p L) (hL : ∀ a used rest, L a used rest → L' a used rest) :
    Sound p L' := by
  intro data a rest hdata
  obtain ⟨used, hused, ha⟩ := h data a rest hdata
  exact ⟨used, hused, hL a used rest ha⟩

lemma fail (e : ε) : Sound (throw e : Reader ε A) L := fun _ _ _ => nofun

lemma cond {c : Prop} [Decidable c] (hp : c → Sound p L) (hq : ¬c → Sound q L) : Sound (if c then p else q) L := by
  split
  · exact hp ‹c›
  · exact hq ‹¬c›

end Sound

namespace Exact

lemma intro (hsound : Sound p L) (hread : ∀ a used rest, L a used rest → p (used ++ rest) = .ok (a, rest)) :
    Exact p L := by
  intro data a rest
  refine ⟨hsound data a rest, ?_⟩
  rintro ⟨used, rfl, h⟩
  exact hread a used rest h

lemma read (h : Exact p L) {used rest : Bytes} {a : A} (hL : L a used rest) : p (used ++ rest) = .ok (a, rest) :=
  (h _ a rest).mpr ⟨used, rfl, hL⟩

lemma read_bind (h : Exact p L) {used rest : Bytes} {a : A} (hL : L a used rest) :
    (p >>= f) (used ++ rest) = f a rest := by
  change (p (used ++ rest) >>= fun x => f x.1 x.2) = f a rest
  rw [h.read hL]
  rfl

lemma bind (hp : Exact p L) (hf : ∀ a u, Sound (f a) fun b v rest => L a u (v ++ rest) → M b (u ++ v) rest) :
    Sound (p >>= f) M := by
  intro data b rest h
  change (p data >>= fun x => f x.1 x.2) = .ok (b, rest) at h
  cases hdata : p data with
  | error e =>
    rw [hdata] at h
    cases h
  | ok x =>
    rw [hdata] at h
    obtain ⟨u, rfl, hL⟩ := (hp data x.1 x.2).mp hdata
    obtain ⟨v, hv, hM⟩ := hf x.1 u _ b rest h
    rw [hv] at hL
    exact ⟨u ++ v, by rw [hv, List.append_assoc], hM hL⟩

/-- As `bind`, where the bytes of the first item are told by the item. -/
lemma field {w : A → Bytes} (hp : Exact p fun a used _ => used = w a)
    (hf : ∀ a, Sound (f a) fun b v rest => M b (w a ++ v) rest) : Sound (p >>= f) M := by
  refine hp.bind fun a u => (hf a).imp fun b v rest hM => ?_
  rintro rfl
  exact hM

/-- Nothing is read past the end. -/
lemma suffix (h : Exact p L) {data rest : Bytes} {a : A} (hdata : p data = .ok (a, rest)) : rest.IsSuffix data := by
  obtain ⟨used, rfl, -⟩ := (h data a rest).mp hdata
  exact ⟨used, rfl⟩

end Exact

def take (short : ε) (n : Nat) : Reader ε { bs : Bytes // bs.length = n } := fun data =>
  if h : n ≤ data.length then .ok (⟨data.take n, by simp [h]⟩, data.drop n) else .error short

lemma take_exact (short : ε) (n : Nat) : Exact (take short n) fun bs used _ => used = bs.1 := by
  intro data bs rest
  constructor
  · intro h
    unfold take at h
    split at h
    · cases h
      exact ⟨_, (List.take_append_drop n data).symm, rfl⟩
    · cases h
  · rintro ⟨_, rfl, rfl⟩
    obtain ⟨bs, rfl⟩ := bs
    simp [take]

/-- A number of `w` bytes, as a value of the type that holds such numbers. -/
def number (short : ε) (w : Nat) (ofNat : Nat → A) : Reader ε A := do
  let bs ← take short w
  return ofNat (value bs.1)

lemma number_exact (short : ε) {w : Nat} {ofNat : Nat → A} (toNat : A → Nat) (hlt : ∀ a, toNat a < 256 ^ w)
    (hof : ∀ a, ofNat (toNat a) = a) (hto : ∀ n, n < 256 ^ w → toNat (ofNat n) = n) :
    Exact (number short w ofNat) fun a used _ => used = be w (toNat a) := by
  refine .intro ((take_exact short w).field fun bs => .pure fun _ => ?_) ?_
  · have hvalue := value_lt bs.1
    have hbe := be_value bs.1
    rw [bs.2] at hvalue hbe
    rw [hto _ hvalue, hbe, List.append_nil]
  · rintro a _ rest rfl
    refine ((take_exact short w).read_bind (a := ⟨be w (toNat a), length_be w _⟩) rfl).trans ?_
    rw [value_be (hlt a), hof]
    rfl

def uint8 (short : ε) : Reader ε UInt8 := number short 1 UInt8.ofNat

def uint16 (short : ε) : Reader ε UInt16 := number short 2 UInt16.ofNat

def uint32 (short : ε) : Reader ε UInt32 := number short 4 UInt32.ofNat

def uint64 (short : ε) : Reader ε UInt64 := number short 8 UInt64.ofNat

lemma uint8_exact (short : ε) : Exact (uint8 short) fun x used _ => used = [x] := by
  have h := number_exact short (w := 1) UInt8.toNat (fun x => x.toNat_lt) (fun _ => UInt8.ofNat_toNat)
    fun _ hn => UInt8.toNat_ofNat_of_lt hn
  simpa [be, uint8] using h

lemma uint16_exact (short : ε) : Exact (uint16 short) fun x used _ => used = be 2 x.toNat :=
  number_exact short UInt16.toNat (fun x => x.toNat_lt) (fun _ => UInt16.ofNat_toNat) fun _ hn => UInt16.toNat_ofNat_of_lt hn

lemma uint32_exact (short : ε) : Exact (uint32 short) fun x used _ => used = be 4 x.toNat :=
  number_exact short UInt32.toNat (fun x => x.toNat_lt) (fun _ => UInt32.ofNat_toNat) fun _ hn => UInt32.toNat_ofNat_of_lt hn

lemma uint64_exact (short : ε) : Exact (uint64 short) fun x used _ => used = be 8 x.toNat :=
  number_exact short UInt64.toNat (fun x => x.toNat_lt) (fun _ => UInt64.ofNat_toNat) fun _ hn => UInt64.toNat_ofNat_of_lt hn

/-! ### Strings that end at a zero byte -/

/-- The bytes before a zero byte. -/
abbrev CString := { bs : Bytes // 0 ∉ bs }

def splitZero : Bytes → Option (CString × Bytes)
  | [] => none
  | b :: bs =>
    if h : b = 0 then some (⟨[], List.not_mem_nil⟩, bs)
    else
      match splitZero bs with
      | none => none
      | some (s, rest) => some (⟨b :: s.1, by simp [s.2, Ne.symm h]⟩, rest)

def cstring (short : ε) : Reader ε CString := fun data =>
  match splitZero data with
  | none => .error short
  | some x => .ok x

lemma splitZero_eq_some {data rest : Bytes} {s : CString} :
    splitZero data = some (s, rest) ↔ data = s.1 ++ [0] ++ rest := by
  induction data generalizing s with
  | nil => simp [splitZero]
  | cons b bs ih =>
    rw [splitZero]
    by_cases hb : b = 0
    · subst hb
      rw [dif_pos rfl]
      constructor
      · intro h
        cases h
        rfl
      · obtain ⟨s, hs⟩ := s
        intro h
        cases s with
        | nil =>
          cases h
          rfl
        | cons b s =>
          cases h
          exact absurd List.mem_cons_self hs
    · rw [dif_neg hb]
      constructor
      · intro h
        split at h
        · cases h
        · rename_i s' rest' hsplit
          cases h
          rw [ih.mp hsplit]
          rfl
      · obtain ⟨s, hs⟩ := s
        intro h
        cases s with
        | nil =>
          cases h
          exact absurd rfl hb
        | cons b s =>
          cases h
          rw [ih (s := ⟨s, fun hmem => hs (List.mem_cons_of_mem _ hmem)⟩) |>.mpr rfl]

lemma cstring_exact (short : ε) : Exact (cstring short) fun s used _ => used = s.1 ++ [0] := by
  intro data s rest
  have hiff : splitZero data = some (s, rest) ↔ data = s.1 ++ [0] ++ rest := splitZero_eq_some
  unfold cstring
  constructor
  · intro h
    split at h
    · cases h
    · rename_i x hx
      cases h
      exact ⟨_, hiff.mp hx, rfl⟩
  · rintro ⟨_, rfl, rfl⟩
    rw [hiff.mpr rfl]

/-- One item after the other, so many of them. -/
def times (p : Reader ε A) : (n : Nat) → Reader ε { l : List A // l.length = n }
  | 0 => pure ⟨[], rfl⟩
  | n + 1 => do
    let a ← p
    let l ← times p n
    return ⟨a :: l.1, by simp [l.2]⟩

/-- The items are laid out one after the other. -/
inductive Sequence (L : A → Bytes → Prop) : List A → Bytes → Prop
  | nil : Sequence L [] []
  | cons {a : A} {l : List A} {u v : Bytes} (ha : L a u) (hl : Sequence L l v) : Sequence L (a :: l) (u ++ v)

lemma times_exact {p : Reader ε A} {L : A → Bytes → Prop} (hp : Exact p fun a used _ => L a used) (n : Nat) :
    Exact (times p n) fun l used _ => Sequence L l.1 used := by
  induction n with
  | zero =>
    refine .intro (.pure fun _ => .nil) ?_
    rintro ⟨l, hl⟩ used rest h
    cases List.length_eq_zero_iff.mp hl
    cases h
    rfl
  | succ n ih =>
    refine .intro (hp.bind fun a u => ih.bind fun l v => .pure fun _ hl ha => ?_) ?_
    · rw [List.append_nil]
      exact .cons ha hl
    · rintro ⟨l, hl⟩ used rest h
      cases h with
      | nil => cases hl
      | cons ha hl' =>
        rw [List.append_assoc]
        exact (hp.read_bind ha).trans (ih.read_bind (a := ⟨_, Nat.succ.inj hl⟩) hl')

lemma sequence_iff {w : A → Bytes} {l : List A} {used : Bytes} :
    Sequence (fun a u => u = w a) l used ↔ used = l.flatMap w := by
  induction l generalizing used with
  | nil =>
    constructor
    · intro h
      cases h
      rfl
    · rintro rfl
      exact .nil
  | cons a l ih =>
    constructor
    · intro h
      cases h with
      | cons ha hl => rw [ha, ih.mp hl, List.flatMap_cons]
    · rintro rfl
      exact .cons rfl (ih.mpr rfl)

/-- A list whose length is a number of `w` bytes. -/
abbrev Counted (w : Nat) (A : Type) := { l : List A // l.length < 256 ^ w }

def counted16 (short : ε) (p : Reader ε A) : Reader ε (Counted 2 A) := do
  let n ← uint16 short
  let l ← times p n.toNat
  return ⟨l.1, by rw [l.2]; exact n.toNat_lt⟩

def bytes32 (short : ε) : Reader ε (Counted 4 UInt8) := do
  let n ← uint32 short
  let bs ← take short n.toNat
  return ⟨bs.1, by rw [bs.2]; exact n.toNat_lt⟩

section

variable {p : Reader ε A} {L : A → Bytes → Prop}

lemma counted16_exact (short : ε) (hp : Exact p fun a used _ => L a used) :
    Exact (counted16 short p) fun l used _ => ∃ v, used = be 2 l.1.length ++ v ∧ Sequence L l.1 v := by
  refine .intro ((uint16_exact short).field fun n => (times_exact hp n.toNat).bind fun l u => .pure fun _ hl => ?_) ?_
  · exact ⟨u, by rw [List.append_nil, l.2], hl⟩
  · rintro ⟨l, hlt⟩ _ rest ⟨v, rfl, hl⟩
    have hn : (UInt16.ofNat l.length).toNat = l.length := UInt16.toNat_ofNat_of_lt hlt
    rw [List.append_assoc]
    refine ((uint16_exact short).read_bind (a := UInt16.ofNat l.length) (by rw [hn])).trans ?_
    exact (times_exact hp _).read_bind (a := ⟨l, hn.symm⟩) hl

lemma bytes32_exact (short : ε) : Exact (bytes32 short) fun bs used _ => used = be 4 bs.1.length ++ bs.1 := by
  refine .intro ((uint32_exact short).field fun n => (take_exact short n.toNat).field fun bs => .pure fun _ => ?_) ?_
  · rw [List.append_nil, bs.2]
  · rintro ⟨bs, hlt⟩ _ rest rfl
    have hn : (UInt32.ofNat bs.length).toNat = bs.length := UInt32.toNat_ofNat_of_lt hlt
    rw [List.append_assoc]
    refine ((uint32_exact short).read_bind (a := UInt32.ofNat bs.length) (by rw [hn])).trans ?_
    exact (take_exact short _).read_bind (a := ⟨bs, hn.symm⟩) rfl

end

end PgShard.Wire
