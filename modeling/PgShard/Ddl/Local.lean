import PgShard.Postgres.Equality

/-!
# When a reference stays on the shard

A shard checks a foreign key against its own rows. That is the right answer when the referenced
row is on every shard that has the referencing one: when the placements allow it, and between
sharded tables when the shard key references the shard key and both hash alike.
-/

namespace PgShard.Ddl

open Planner Postgres Placement

/-- The shards of a database, its home shard, and the ranges of the key space. -/
structure Layout where
  shards : List Nat
  home : Nat
  ranges : List Range
  valid : validate ranges = .ok ()
  home_mem : home ∈ shards
  owner_mem : ∀ r ∈ ranges, r.shardID ∈ shards

/-- A table of a foreign key: how its rows are placed, and the types of its columns. A column of
another type than a shard key can have is `none`. -/
structure Side where
  kind : PlacementKind
  key : String
  types : String → Option Column
  typed : kind = .sharded → (types key).isSome

abbrev Row := String → Datum

/-- A value as a column of the type stores it. -/
def Holds (col : Column) (d : Datum) : Prop := OfColumn col d ∧ coerceLength false col.type col.length d = some d

def Side.Holds (s : Side) (row : Row) : Prop := ∀ c col, s.types c = some col → Ddl.Holds col (row c)

/-- The shards a row is on. -/
def Side.on (s : Side) (L : Layout) (row : Row) (shard : Nat) : Prop :=
  match s.kind with
  | .unsharded => shard = L.home
  | .reference => shard ∈ L.shards
  | .sharded => ∃ col, s.types s.key = some col ∧ locate L.ranges (storedID col (row s.key)) = some shard

/-- The values of two columns compared by a foreign key. -/
def Same (l r : Option Column) (x y : Datum) : Prop :=
  match l, r with
  | some l, some r => Equal l r x y
  | _, _ => x = y

/-- The row references the other: their columns are equal pair by pair. -/
def Refers (s t : Side) (pairs : List (String × String)) (a b : Row) : Prop :=
  ∀ x ∈ pairs, Same (s.types x.1) (t.types x.2) (a x.1) (b x.2)

/-- The referenced row is on every shard that has the referencing one. -/
def Local (s t : Side) (pairs : List (String × String)) : Prop :=
  ∀ (L : Layout) (a b : Row), s.Holds a → t.Holds b → Refers s t pairs a b → ∀ shard, s.on L a shard → t.on L b shard

/-- The placements allow the foreign key, between sharded tables from shard key to shard key. -/
def Mapped (s t : Side) (pairs : List (String × String)) : Prop :=
  match s.kind, t.kind with
  | .unsharded, .sharded | .reference, .unsharded | .reference, .sharded | .sharded, .unsharded => False
  | .sharded, .sharded => (s.key, t.key) ∈ pairs
  | _, _ => True

/-- The two shard keys hash alike. -/
def Alike (s t : Side) : Prop :=
  ∀ l r, s.kind = .sharded → t.kind = .sharded → s.types s.key = some l → t.types t.key = some r → ¬Padded l r

lemma local_of_mapped {s t : Side} {pairs : List (String × String)} (hm : Mapped s t pairs)
    (ha : Alike s t) : Local s t pairs := by
  intro L a b hs ht hrefers shard hon
  unfold Mapped at hm
  unfold Side.on at hon ⊢
  cases hsk : s.kind <;> cases htk : t.kind <;> simp only [hsk, htk] at hm hon ⊢
  · exact hon
  · rw [hon]
    exact L.home_mem
  · obtain ⟨l, hl, hloc⟩ := hon
    obtain ⟨r, hr⟩ := Option.isSome_iff_exists.mp (t.typed htk)
    have hsame := hrefers _ hm
    simp only [Same, hl, hr] at hsame
    refine ⟨r, hr, ?_⟩
    rw [← hsame.position (hs _ _ hl).1 (ht _ _ hr).1 (ha l r hsk htk hl hr)]
    exact hloc
  · obtain ⟨l, hl, hloc⟩ := hon
    obtain ⟨r, hr, _, hfound, _⟩ := locate_owner L.valid (storedID_mem l _).1 (storedID_mem l _).2
    rw [hfound] at hloc
    cases hloc
    exact L.owner_mem r hr
  · exact hon

/-! ### Foreign keys that leave the shard -/

/-- A range set of two shards, cut at a position. -/
def cutAt (m : Int) : List Range := [⟨minKey, m - 1, 0⟩, ⟨m, maxKey, 1⟩]

lemma cutAt_valid {m : Int} (hlo : minKey < m) (hhi : m ≤ maxKey) : validate (cutAt m) = .ok () := by
  have h₁ : ¬(m - 1 = maxKey) := by omega
  have h₂ : ¬(minKey > m - 1) := by omega
  have h₃ : ¬(m > maxKey) := by omega
  simp [validate, cutAt, firstGap, List.findIdx?_cons, h₁, h₂, h₃]

lemma cutAt_locate {m id : Int} (hlo : minKey < m) (hhi : m ≤ maxKey) (hid : minKey ≤ id ∧ id ≤ maxKey) :
    locate (cutAt m) id = some (if id < m then 0 else 1) := by
  obtain ⟨r, hr, hc, hloc, _⟩ := locate_owner (cutAt_valid hlo hhi) hid.1 hid.2
  rw [hloc]
  simp only [Range.contains, Bool.and_eq_true, decide_eq_true_eq] at hc
  simp only [cutAt, List.mem_cons, List.not_mem_nil, or_false] at hr
  rcases hr with rfl | rfl
  · rw [if_pos (by dsimp only at hc; omega)]
  · rw [if_neg (by dsimp only at hc; omega)]

def cutLayout (m : Int) (hlo : minKey < m) (hhi : m ≤ maxKey) : Layout where
  shards := [0, 1]
  home := 0
  ranges := cutAt m
  valid := cutAt_valid hlo hhi
  home_mem := by simp
  owner_mem := by simp [cutAt]

/-- Two shards, and every key on the one that is not home. -/
def away : Layout where
  shards := [0, 1]
  home := 0
  ranges := [⟨minKey, maxKey, 1⟩]
  valid := by decide
  home_mem := by simp
  owner_mem := by simp

lemma away_locate {id : Int} (hid : minKey ≤ id ∧ id ≤ maxKey) : locate away.ranges id = some 1 := by
  obtain ⟨r, hr, _, hloc, _⟩ := locate_owner away.valid hid.1 hid.2
  rw [hloc]
  cases List.mem_singleton.mp hr
  rfl

/-- One character in a text column. -/
def textIn (col : Column) (x : UInt8) : Key.Bytes :=
  match col with
  | .character (some n) => x :: List.replicate (n - 1) 32
  | _ => [x]

/-- A value of a column, one for each byte. -/
def sample (x : UInt8) : Option Column → Datum
  | none => .int x.toNat
  | some col => match col.family with
    | .int => .int x.toNat
    | .uuid => .uuid (List.replicate 16 x)
    | .text => .text (textIn col x)

/-- Columns PostgreSQL can compare: of one family, or both of another type. -/
def Comparable (l r : Option Column) : Prop := l.map Column.family = r.map Column.family

/-- A length, if the column has one, is at least one character. -/
def Sized (col : Column) : Prop := col.length ≠ some 0

/-- The bytes the samples are made of. -/
def Probe (x : UInt8) : Prop := x = 32 ∨ x = 97 ∨ x = 98

variable {x : UInt8} {col : Column}

lemma Probe.not_continuation (hx : Probe x) : Key.isContinuation x = false := by
  rcases hx with rfl | rfl | rfl <;> decide

lemma textIn_trim (col : Column) (x : UInt8) : Key.trimRight (textIn col x) = Key.trimRight [x] := by
  have hblank : ∀ k, Key.trimRight (x :: List.replicate k 32) = Key.trimRight [x] := by
    intro k
    exact Key.sameTrimmed_append [x] k
  unfold textIn
  split
  · exact hblank _
  · rfl

lemma textIn_plain (h : col.isCharacter = false) (x : UInt8) : textIn col x = [x] := by
  cases col <;> first | rfl | cases h

lemma ofColumn_small {n : Nat} (hcol : col.family = .int) (hn : n < 128) : OfColumn col (.int n) := by
  have hrange : col.type.inRange n = true := by
    simp only [PgType.inRange, Bool.and_eq_true, decide_eq_true_eq]
    cases col <;> simp only [Column.type, PgType.bound] <;> omega
  unfold OfColumn
  rw [hcol]
  exact hrange

lemma sample_holds (hx : Probe x) (hs : Sized col) : Holds col (sample x (some col)) := by
  have hlt : x.toNat < 128 := by rcases hx with rfl | rfl | rfl <;> decide
  have hone : Key.runeCount [x] = 1 := by simp [Key.runeCount, hx.not_continuation]
  cases col with
  | int2 | int4 | int8 =>
    exact ⟨ofColumn_small rfl hlt, rfl⟩
  | uuid | text => exact ⟨by simp [OfColumn, sample, Column.family], rfl⟩
  | varchar n =>
    refine ⟨by simp [OfColumn, sample, Column.family], ?_⟩
    cases n with
    | none => rfl
    | some n =>
      have hn : 1 ≤ n := by
        simp [Sized, Column.length] at hs
        omega
      simp [sample, Column.family, textIn, coerceLength, Column.type, Column.length, hone, hn]
  | character n =>
    refine ⟨by simp [OfColumn, sample, Column.family], ?_⟩
    cases n with
    | none => rfl
    | some n =>
      have hn : 1 ≤ n := by
        simp [Sized, Column.length] at hs
        omega
      have hcount : Key.runeCount (x :: List.replicate (n - 1) 32) = n := by
        have := Key.runeCount_append_blanks (n - 1) [x]
        simp only [List.singleton_append, hone] at this
        omega
      simp [sample, Column.family, textIn, coerceLength, Column.type, Column.length, hcount]

/-- The sample of one byte is the same value in columns that can be compared; a blank only when
it is not brought from `character` to `text`. -/
lemma sample_same {l r : Option Column} (hc : Comparable l r)
    (hx : x = 32 → l.any Column.isCharacter = false) : Same l r (sample x l) (sample x r) := by
  unfold Comparable at hc
  cases l with
  | none =>
    cases r with
    | none => rfl
    | some r => cases hc
  | some l =>
    cases r with
    | none => cases hc
    | some r =>
      have hfam : l.family = r.family := by simpa using hc
      simp only [Same, sample, ← hfam]
      cases hl : l.family with
      | int => rfl
      | uuid => rfl
      | text =>
        simp only [Equal]
        split
        · rw [textIn_trim, textIn_trim]
        · next hr =>
          have hr : r.isCharacter = false := by simpa using hr
          split
          · next hlc =>
            have hne : x ≠ 32 := by
              intro h32
              have := hx h32
              simp [hlc] at this
            rw [textIn_trim, textIn_plain hr]
            simp [Key.trimRight, hne]
          · next hlc => rw [textIn_plain hr, textIn_plain (by simpa using hlc)]

/-- Where the sample of a byte lives, by the family of the column. -/
def samplePosition (x : UInt8) : Family → Int
  | .int => keyspaceID (.int x.toNat)
  | .uuid => keyspaceID (.uuid (List.replicate 16 x))
  | .text => keyspaceID (.text [x])

lemma sample_position (hne : x ≠ 32) (hx : Probe x := by simp [Probe]) :
    storedID col (sample x (some col)) = samplePosition x col.family := by
  cases hcol : col.family with
  | int =>
    have hlt : x.toNat < 128 := by rcases hx with rfl | rfl | rfl <;> decide
    simp only [sample, hcol]
    exact (ofColumn_small hcol hlt).position
  | uuid =>
    simp only [sample, hcol]
    rw [storedID_uuid]
    rfl
  | text =>
    simp only [sample, hcol]
    rw [storedID_bytes]
    split
    · rw [textIn_trim]
      simp [Key.trimRight, hne, samplePosition, keyspaceID]
    · next hchar =>
      rw [textIn_plain (by simpa using hchar)]
      rfl

lemma samplePosition_apart (f g : Family) : samplePosition 98 f ≠ samplePosition 97 g := by
  cases f <;> cases g <;> decide +kernel

/-- A blank in a `text` column and in a `character` one. -/
lemma blank_apart {l r : Column} (hp : Padded l r) (hl : l.family = .text) :
    storedID l (sample 32 (some l)) ≠ storedID r (sample 32 (some r)) := by
  have hr : r.family = .text := by
    have := hp.1
    cases r <;> first | rfl | cases this
  simp only [sample, hl, hr]
  rw [storedID_bytes, storedID_bytes, if_neg (by simp [hp.2]), if_pos hp.1, textIn_trim, textIn_plain hp.2]
  decide +kernel

/-- A layout that keeps two positions apart. -/
lemma exists_apart {p q : Int} (hp : minKey ≤ p ∧ p ≤ maxKey) (hq : minKey ≤ q ∧ q ≤ maxKey)
    (hne : p ≠ q) : ∃ L : Layout, locate L.ranges p ≠ locate L.ranges q := by
  wlog hlt : p < q generalizing p q
  · obtain ⟨L, hL⟩ := this hq hp hne.symm (by omega)
    exact ⟨L, hL.symm⟩
  have hlo : minKey < q := by omega
  refine ⟨cutLayout q hlo hq.2, ?_⟩
  simp [cutLayout, cutAt_locate hlo hq.2 hp, cutAt_locate hlo hq.2 hq, hlt]

/-- A foreign key PostgreSQL accepts: it compares columns it can compare, and names no referenced
column twice. -/
structure WellFormed (s t : Side) (pairs : List (String × String)) : Prop where
  comparable : ∀ x ∈ pairs, Comparable (s.types x.1) (t.types x.2)
  distinct : ∀ x ∈ pairs, ∀ y ∈ pairs, x.2 = y.2 → x.1 = y.1
  sized : ∀ c col, s.types c = some col → Sized col
  sizedRef : ∀ c col, t.types c = some col → Sized col

/-- Rows of samples: the columns paired with the shard key hold `x`, the others `a`. -/
def sampleRow (s : Side) (x : UInt8) : Row := fun c => sample (if c = s.key then x else 97) (s.types c)

def sampleRef (s t : Side) (pairs : List (String × String)) (x : UInt8) : Row :=
  fun d => sample (if (s.key, d) ∈ pairs then x else 97) (t.types d)

section

variable {s t : Side} {pairs : List (String × String)} {x : UInt8}

lemma sampleRow_holds (hw : WellFormed s t pairs) (hx : Probe x := by simp [Probe]) :
    s.Holds (sampleRow s x) := by
  intro c col hcol
  simp only [sampleRow, hcol]
  exact sample_holds (by split; exacts [hx, .inr (.inl rfl)]) (hw.sized c col hcol)

lemma sampleRef_holds (hw : WellFormed s t pairs) (hx : Probe x := by simp [Probe]) :
    t.Holds (sampleRef s t pairs x) := by
  intro d col hcol
  simp only [sampleRef, hcol]
  exact sample_holds (by split; exacts [hx, .inr (.inl rfl)]) (hw.sizedRef d col hcol)

lemma sample_refers (hw : WellFormed s t pairs) (hx : x = 32 → (s.types s.key).any Column.isCharacter = false) :
    Refers s t pairs (sampleRow s x) (sampleRef s t pairs x) := by
  rintro ⟨c, d⟩ hmem
  have hcomp := hw.comparable _ hmem
  unfold sampleRow sampleRef
  by_cases hc : c = s.key
  · subst hc
    rw [if_pos rfl, if_pos hmem]
    exact sample_same hcomp hx
  · have hno : (s.key, d) ∉ pairs := fun hkey => hc (hw.distinct _ hmem _ hkey rfl)
    rw [if_neg hc, if_neg hno]
    exact sample_same hcomp fun h => absurd h (by decide)

lemma not_local_of_apart {l r : Column} {a b : Row} (hsk : s.kind = .sharded) (htk : t.kind = .sharded)
    (hl : s.types s.key = some l) (hr : t.types t.key = some r) (ha : s.Holds a) (hb : t.Holds b)
    (href : Refers s t pairs a b) (hne : storedID l (a s.key) ≠ storedID r (b t.key)) : ¬Local s t pairs := by
  intro hlocal
  obtain ⟨L, hapart⟩ := exists_apart (storedID_mem l _) (storedID_mem r _) hne
  obtain ⟨o, _, _, hloc, _⟩ := locate_owner L.valid (storedID_mem l (a s.key)).1 (storedID_mem l (a s.key)).2
  have hon := hlocal L a b ha hb href o.shardID (by
    simp only [Side.on, hsk]
    exact ⟨l, hl, hloc⟩)
  simp only [Side.on, htk] at hon
  obtain ⟨r', hr', hfound⟩ := hon
  rw [hr] at hr'
  cases hr'
  rw [hloc, hfound] at hapart
  exact hapart rfl

lemma mapped_of_local (hw : WellFormed s t pairs) (h : Local s t pairs) : Mapped s t pairs := by
  have hrows := h away _ _ (sampleRow_holds hw (x := 97))
    (sampleRef_holds hw) (sample_refers hw fun h => absurd h (by decide))
  have hsharded : s.kind = .sharded → ∃ col, s.types s.key = some col ∧
      locate away.ranges (storedID col (sampleRow s 97 s.key)) = some 1 := by
    intro hk
    obtain ⟨col, hcol⟩ := Option.isSome_iff_exists.mp (s.typed hk)
    exact ⟨col, hcol, away_locate (storedID_mem _ _)⟩
  unfold Side.on at hrows
  unfold Mapped
  cases hsk : s.kind <;> cases htk : t.kind <;> simp only [hsk, htk] at hrows ⊢
  · obtain ⟨col, _, hloc⟩ := hrows 0 rfl
    rw [away_locate (storedID_mem _ _)] at hloc
    cases hloc
  · have := hrows 1 (hsharded hsk)
    simp [away] at this
  · by_contra hno
    obtain ⟨l, hl⟩ := Option.isSome_iff_exists.mp (s.typed hsk)
    obtain ⟨r, hr⟩ := Option.isSome_iff_exists.mp (t.typed htk)
    refine not_local_of_apart hsk htk hl hr (sampleRow_holds hw (x := 98))
      (sampleRef_holds hw) (sample_refers hw fun h => absurd h (by decide)) ?_ h
    simp only [sampleRow, sampleRef, if_true, if_neg hno, hl, hr]
    rw [sample_position (by decide), sample_position (by decide)]
    exact samplePosition_apart _ _
  · have := hrows 1 (by simp [away])
    simp [away] at this
  · obtain ⟨col, _, hloc⟩ := hrows 0 (by simp [away])
    rw [away_locate (storedID_mem _ _)] at hloc
    cases hloc

lemma alike_of_local (hw : WellFormed s t pairs) (h : Local s t pairs) : Alike s t := by
  intro l r hsk htk hl hr hp
  have hmem : (s.key, t.key) ∈ pairs := by
    have hm := mapped_of_local hw h
    simpa [Mapped, hsk, htk] using hm
  have hfam : l.family = .text := by
    have hc := hw.comparable _ hmem
    simp only [hl, hr, Comparable, Option.map_some, Option.some.injEq] at hc
    rw [hc]
    have := hp.1
    cases r <;> first | rfl | cases this
  refine not_local_of_apart hsk htk hl hr (sampleRow_holds hw (x := 32)) (sampleRef_holds hw) (sample_refers hw ?_) ?_ h
  · simp [hl, hp.2]
  · simp only [sampleRow, sampleRef, if_true, if_pos hmem, hl, hr]
    exact blank_apart hp hfam

end

end PgShard.Ddl
