import PgShard.Postgres.Bound

/-!
# The position of the stored key

The assignment to the column brings an operand to the value that is stored; the router's
position of the operand is that value's own.
-/

namespace PgShard.Postgres

open Planner Key Placement

variable {col : Column} {b : Bytes} {d stored : Datum} {v : Value} {ty : PgType} {node : Node} {bind : BindParams}

lemma storedID_int {i : Int} (hcol : col.family = .int) (hr : col.type.inRange i = true) :
    storedID col (.int i) = keyspaceID (.int i) := by
  simp only [PgType.inRange, Bool.and_eq_true, decide_eq_true_eq] at hr
  cases col with
  | int2 =>
    have hlt : (-2 ^ 31 : Int) ≤ i ∧ i < 2 ^ 31 := by
      simp only [Column.type, PgType.bound] at hr
      omega
    simp only [storedID, keyspaceID, hashInt8_eq_hashInt4 partitionSeed hlt.1 hlt.2]
    rfl
  | int4 =>
    have hlt : (-2 ^ 31 : Int) ≤ i ∧ i < 2 ^ 31 := by
      simp only [Column.type, PgType.bound] at hr
      omega
    simp only [storedID, keyspaceID, hashInt8_eq_hashInt4 partitionSeed hlt.1 hlt.2]
  | int8 => rfl
  | _ => cases hcol

lemma Column.eq_uuid (h : col.family = .uuid) : col = .uuid := by
  cases col <;> first | rfl | cases h

lemma routedID_uuid {u : Bytes} (h : parseUUID b = some u) :
    keyspaceID (normaliseKey (.text b) Column.uuid.spelling) = storedID .uuid (.uuid u) := by
  simp [normaliseKey, parseCharType_spelling, Column.parsed, h, keyspaceID, storedID]

lemma normaliseKey_text (col : Column) (b : Bytes) (hcol : col.family = .text) :
    normaliseKey (.text b) col.spelling = match col with
      | .character _ => .text (trimRight b)
      | .varchar (some n) =>
        if runeCount b ≤ n ∨ (dropRunes n b).any (· ≠ 32) then .text b else .text (takeRunes n b)
      | _ => .text b := by
  unfold normaliseKey
  rw [parseCharType_spelling]
  cases col with
  | text => rfl
  | varchar length =>
    cases length with
    | none => rfl
    | some n =>
      simp only [Column.parsed, String.reduceEq, if_false, or_self, ne_eq, not_true]
      by_cases hle : runeCount b ≤ n
      · simp only [hle, if_true, true_or]
      · cases hany : (dropRunes n b).any (fun c => !decide (c = 32)) <;> simp [hle, hany]
  | character length => cases length <;> rfl
  | _ => cases hcol

/-- A `character(n)` column keeps a text up to the blanks at its end. -/
lemma coerceLength_character {length : Option Nat} (h : coerceLength false .bpchar length (.text b) = some d) :
    ∃ b', d = .text b' ∧ SameTrimmed b' b := by
  cases length with
  | none =>
    cases h
    exact ⟨b, rfl, rfl⟩
  | some n =>
    simp only [coerceLength, if_true, Bool.false_or] at h
    split at h
    · cases h
      exact ⟨_, rfl, sameTrimmed_append b _⟩
    · split at h
      · next hblank =>
        cases h
        exact ⟨_, rfl, sameTrimmed_takeRunes hblank⟩
      · cases h

/-- The key the router makes of a text is the one the column stores. -/
lemma storedID_text {b' : Bytes} (hcol : col.family = .text) (hm : TextMatches col b b')
    (h : coerceLength false col.type col.length (.text b') = some d) :
    keyspaceID (normaliseKey (.text b) col.spelling) = storedID col d := by
  rw [normaliseKey_text col b hcol]
  cases col with
  | text =>
    cases hm
    cases h
    rfl
  | varchar length =>
    cases hm
    cases length with
    | none =>
      cases h
      rfl
    | some n =>
      simp only [Column.type, Column.length, coerceLength, Bool.false_or] at h
      split at h
      · next hle =>
        cases h
        simp only [hle, true_or, if_true]
        rfl
      · next hgt =>
        split at h
        · next hblank =>
          cases h
          have hany : (dropRunes n b).any (· ≠ 32) = false := by
            rw [List.any_eq_false]
            intro c hc
            simpa using List.all_eq_true.mp hblank c hc
          simp only [hgt, hany, false_or, Bool.false_eq_true, if_false]
          rfl
        · cases h
  | character length =>
    obtain ⟨b'', rfl, hsame⟩ := coerceLength_character h
    have htrim : trimRight b'' = trimRight b := hsame.trans hm
    simp only [storedID, keyspaceID, htrim]
  | _ => cases hcol

/-- A value that matches is stored where the router looks for it. -/
lemma assign_matches {source : PgType} (hs : source = .bpchar → col.isCharacter = true)
    (hm : Matches col v d) (h : assign col (some source) d = some stored) :
    keyspaceID (normaliseKey v col.spelling) = storedID col stored := by
  obtain ⟨x, hx, hlen⟩ := Option.bind_eq_some_iff.mp h
  have hx : assignCast source col.type d = some x := hx
  rcases hm.inv with ⟨i, hcol, rfl, rfl⟩ | ⟨u, hcol, rfl, rfl⟩ | ⟨b, u, hcol, rfl, rfl, hp⟩ |
    ⟨b, b', hcol, rfl, rfl, htext⟩
  · simp only [assignCast, explicitCast, col.type_family, hcol] at hx
    split at hx
    · next hr =>
      cases hx
      cases hlen
      rw [storedID_int hcol hr]
      rfl
    · cases hx
  · obtain rfl := Column.eq_uuid hcol
    cases hx
    cases hlen
    rfl
  · obtain rfl := Column.eq_uuid hcol
    cases hx
    cases hlen
    exact routedID_uuid hp
  · have hin := Column.input_text hcol
    simp only [assignCast, explicitCast, col.type_family, hcol, hin, Option.some.injEq] at hx
    subst hx
    exact storedID_text hcol (strip_matches hs htext) hlen

/-- A stored text has its length already. -/
lemma coerceLength_twice {length : Option Nat} {d' : Datum}
    (h : coerceLength false ty length d = some d') : coerceLength false ty length d' = some d' := by
  cases length with
  | none =>
    cases d' <;> rfl
  | some n =>
    cases d with
    | text b =>
      simp only [coerceLength, Bool.false_or] at h
      split at h
      · next hle =>
        cases h
        split
        · next hb =>
          have hfull : runeCount (b ++ List.replicate (n - runeCount b) 32) = n := by
            rw [runeCount_append_blanks]
            omega
          simp [coerceLength, hfull, hb]
        · next hb => simp [coerceLength, hle, hb]
      · split at h
        · next hgt hblank =>
          cases h
          have hfull : runeCount (takeRunes n b) = n := by
            rw [runeCount_takeRunes]
            omega
          simp [coerceLength, hfull]
        · cases h
    | _ =>
      cases h
      rfl

/-- The value a lookup of a stored key carries. -/
def Datum.key : Datum → Value
  | .int i => .int i
  | .uuid u => .uuid u
  | .text b => .text b
  | .char c => .text (Datum.char c).output

/-- A value of the column's family and range. -/
def OfColumn (col : Column) (d : Datum) : Prop :=
  match col.family, d with
  | .int, .int i => col.type.inRange i = true
  | .uuid, .uuid _ | .text, .text _ => True
  | _, _ => False

lemma ofColumn_input (h : col.type.input b = some d) : OfColumn col d := by
  cases hcol : col.family with
  | int =>
    rw [input_int (hcol ▸ col.type_family)] at h
    split at h
    · obtain ⟨hr, rfl⟩ := Option.ite_some_none_eq_some.mp h
      simpa [OfColumn, hcol] using hr
    · cases h
  | uuid =>
    obtain rfl := Column.eq_uuid hcol
    obtain ⟨u, _, rfl⟩ := Option.map_eq_some_iff.mp h
    trivial
  | text =>
    rw [Column.input_text hcol] at h
    cases h
    simp [OfColumn, hcol]

lemma ofColumn_assignCast {source : PgType} {x : Datum}
    (h : assignCast source col.type d = some x) : OfColumn col x := by
  cases hcol : col.family with
  | int =>
    cases d <;> simp only [assignCast, explicitCast, col.type_family, hcol] at h <;> try cases h
    split at h
    · next hr =>
      cases h
      simpa [OfColumn, hcol] using hr
    · cases h
  | uuid =>
    cases d <;> simp only [assignCast, explicitCast, col.type_family, hcol] at h <;> cases h
    simp [OfColumn, hcol]
  | text =>
    cases d <;> simp only [assignCast, explicitCast, col.type_family, hcol] at h <;> exact ofColumn_input h

lemma ofColumn_coerceLength {d' : Datum} (hd : OfColumn col d)
    (h : coerceLength false col.type col.length d = some d') : OfColumn col d' := by
  cases d with
  | text b =>
    have hcol : col.family = .text := by
      cases hc : col.family <;> simp [OfColumn, hc] at hd ⊢
    have : ∃ b', d' = .text b' := by
      cases hl : col.length with
      | none =>
        rw [hl] at h
        cases h
        exact ⟨b, rfl⟩
      | some n =>
        rw [hl] at h
        simp only [coerceLength] at h
        split at h
        · cases h
          exact ⟨_, rfl⟩
        · split at h
          · cases h
            exact ⟨_, rfl⟩
          · cases h
    obtain ⟨b', rfl⟩ := this
    simp [OfColumn, hcol]
  | _ =>
    cases h
    exact hd

lemma assignCast_self (hd : OfColumn col d) : assignCast col.type col.type d = some d ∧ Matches col d.key d := by
  cases hcol : col.family with
  | int =>
    cases d <;> simp only [OfColumn, hcol] at hd
    simp [assignCast, explicitCast, col.type_family, hd, Matches, hcol, Datum.key]
  | uuid =>
    cases d <;> simp only [OfColumn, hcol] at hd
    simp [assignCast, explicitCast, col.type_family, Matches, hcol, Datum.key]
  | text =>
    have hin := Column.input_text hcol
    cases d <;> simp only [OfColumn, hcol] at hd
    simp [assignCast, explicitCast, col.type_family, hin, Matches, hcol, Datum.key, TextMatches.refl]

/-- A lookup of a stored key goes to its position. -/
lemma lookup_stored {source : Option PgType} (h : assign col source d = some stored) :
    keyspaceID (normaliseKey stored.key col.spelling) = storedID col stored := by
  obtain ⟨x, hx, hlen⟩ := Option.bind_eq_some_iff.mp h
  have hof : OfColumn col x := by
    cases source with
    | none => exact ofColumn_input hx
    | some source => exact ofColumn_assignCast hx
  obtain ⟨hself, hm⟩ := assignCast_self (ofColumn_coerceLength hof hlen)
  apply assign_matches Column.isCharacter_of_bpchar hm
  simp [assign, hself, coerceLength_twice hlen]

/-- The value the router takes an operand for. -/
def routedValue (bind : BindParams) (columnType : String) (item : KeyItem) : Except ParamError Value :=
  match item.operand with
  | .value v => .ok v
  | .param n => bind.shardKey n item.hint columnType

lemma literal_base {item : KeyItem} {n : Nat} (hl : literal node = some item) : item.operand = .param n →
    (∀ tn ∈ castsOf node, ∃ ty length, named tn = some (ty, length) ∧ ty ≠ .char) →
    baseOf node = .paramRef n := by
  induction hl using literal_induction with
  | param m h =>
    intro hop _
    cases hop
    rfl
  | cast arg tn inner item harg h hl ih =>
    intro hop hcasts
    obtain ⟨ty, length, hn, hc⟩ := hcasts tn (by simp [castsOf])
    obtain ⟨hinner, _⟩ := castItem_to_param hn hc hl hop
    exact ih hinner fun tn' htn' => hcasts tn' (by simp [castsOf, htn'])
  | _ =>
    intro hop
    cases hop

lemma eval_untyped {context : PgType} (h : eval bind context node = some (none, d)) :
    ∃ s, node = .aConst (.sval s) := by
  unfold eval at h
  split at h <;> try cases h
  · split at h <;> cases h
  · exact ⟨_, rfl⟩
  · split at h
    · obtain ⟨ty, _, h⟩ := Option.bind_eq_some_iff.mp h
      obtain ⟨x, _, heq⟩ := Option.map_eq_some_iff.mp h
      cases heq
    · cases h
  · split at h
    · cases h
    · split at h
      · cases h
      · obtain ⟨x, _, heq⟩ := Option.map_eq_some_iff.mp h
        cases heq

lemma decode_text {format : Nat} {raw : Bytes} (hfam : ty.family = some .text)
    (hd : ty.decode format raw = some d) : ∃ b, d = .text b := by
  unfold PgType.decode at hd
  split at hd
  · cases ty with
    | name =>
      simp only [PgType.recv] at hd
      split at hd
      · cases hd
        exact ⟨_, rfl⟩
      · cases hd
    | text | varchar | bpchar =>
      cases hd
      exact ⟨_, rfl⟩
    | _ => cases hfam
  · cases ty with
    | name | text | varchar | bpchar =>
      cases hd
      exact ⟨_, rfl⟩
    | _ => cases hfam

/-- A literal without a cast takes the column's type; one that could be a number is refused. -/
lemma untyped_stored (hplain : ∀ i, pgStrToInt64 b ≠ .ok i) (h : assign col none (.text b) = some stored) :
    keyspaceID (normaliseKey (.text b) col.spelling) = storedID col stored := by
  obtain ⟨x, hx, hlen⟩ := Option.bind_eq_some_iff.mp h
  have hx : col.type.input b = some x := hx
  cases col with
  | int2 | int4 | int8 =>
    simp only [Column.type, PgType.input] at hx
    split at hx
    · next i hp => exact absurd hp (hplain i)
    · cases hx
  | uuid =>
    obtain ⟨u, hp, rfl⟩ := Option.map_eq_some_iff.mp hx
    cases hlen
    exact routedID_uuid hp
  | text | varchar _ | character _ =>
    cases hx
    exact storedID_text rfl (TextMatches.refl _ b) hlen

/-- A parameter without a cast is assigned to the column as it is declared. -/
lemma uncast_matches {i : Nat} {raw : Bytes} (hfits : DeclaredFits col bind i true)
    (hty : paramType bind i col.type = some ty) (hd : ty.decode (bind.format i) raw = some d)
    (hsame : SameValue v d) (h : assign col (some ty) d = some stored) :
    Matches col v d ∧ (ty = .bpchar → col.isCharacter = true) := by
  obtain ⟨x, hx, _⟩ := Option.bind_eq_some_iff.mp h
  have hx : assignCast ty col.type d = some x := hx
  -- in a text column the declared type is a text type, and `bpchar` only for `character`
  have htext : col.family = .text →
      ty.family = some .text ∧ (ty = .bpchar → col.isCharacter = true) := by
    intro hcol
    unfold paramType at hty
    split at hty
    · cases hty
      exact ⟨hcol ▸ col.type_family, Column.isCharacter_of_bpchar⟩
    · simp only [DeclaredFits, hty] at hfits
      exact ⟨(hfits.2 hcol).2 trivial, (hfits.2 hcol).1⟩
  have hm : Matches col v d := by
    cases hcol : col.family with
    | int =>
      cases hsame <;> simp only [assignCast, col.type_family, hcol] at hx <;> first | cases hx | simp [Matches, hcol]
    | uuid =>
      cases hsame <;> simp only [assignCast, col.type_family, hcol] at hx <;> first | cases hx | simp [Matches, hcol]
    | text =>
      obtain ⟨b, rfl⟩ := decode_text (htext hcol).1 hd
      cases hsame
      simpa [Matches, hcol] using TextMatches.refl col b
  refine ⟨hm, ?_⟩
  intro hb
  have hfam : ty.family = some .text := by rw [hb]; rfl
  obtain ⟨b, rfl⟩ := decode_text hfam hd
  rcases hm.inv with ⟨_, _, _, hno⟩ | ⟨_, _, _, hno⟩ | ⟨_, _, _, _, hno, _⟩ | ⟨_, _, hcol, _⟩
  · cases hno
  · cases hno
  · cases hno
  · exact (htext hcol).2 hb

lemma constOrParam_literal {item : KeyItem} (hc : constOrParam node = .ok (some item)) : literal node = some item ∧
      ∀ b, item.operand = .value (.text b) → item.hint = .none → ∀ i, pgStrToInt64 b ≠ .ok i := by
  unfold constOrParam at hc
  split at hc
  · cases hc
  · next item' hl =>
    split at hc
    · next b hop hhint =>
      split at hc
      · cases hc
      · next e hp =>
        cases hc
        refine ⟨hl, ?_⟩
        intro b' hop' _ i hi
        rw [hop] at hop'
        cases hop'
        rw [hp] at hi
        cases hi
    · next hno =>
      cases hc
      exact ⟨hl, fun b hop hhint => absurd hhint (hno b hop)⟩

/-- Where the router and PostgreSQL agree, the router's position of an operand is that of the
key PostgreSQL stores for it. -/
lemma routed_eq_stored {item : KeyItem} (hc : constOrParam node = .ok (some item))
    (hv : routedValue bind col.spelling item = .ok v) (hst : stores col bind node = some stored)
    (hag : Agrees col bind node) : keyspaceID (normaliseKey v col.spelling) = storedID col stored := by
  obtain ⟨⟨source, d⟩, he, hassign⟩ := Option.bind_eq_some_iff.mp hst
  obtain ⟨hl, hplain⟩ := constOrParam_literal hc
  obtain ⟨hcasts, hbase⟩ := hag
  unfold routedValue at hv
  cases hop : item.operand with
  | value w =>
    rw [hop] at hv
    cases hv
    have hint : IntFits col (baseOf node) := by
      unfold IntFits
      split <;> first | trivial | (next heq => rw [heq] at hbase; exact hbase)
    have hm := literal_matches hl hop he hcasts hint
    cases source with
    | none =>
      obtain ⟨s, rfl⟩ := eval_untyped he
      cases hl
      cases hop
      cases he
      exact untyped_stored (hplain _ rfl rfl) hassign
    | some source => exact assign_matches hm.2 hm.1 hassign
  | param n =>
    rw [hop] at hv
    cases n with
    | zero => cases hv
    | succ i =>
      have hparam := literal_base hl hop fun tn htn => by
        obtain ⟨ty, length, hn, hf⟩ := hcasts tn htn
        exact ⟨ty, length, hn, hf.ne_char⟩
      rw [hparam] at hbase
      have hname : PgType.ofOid (bind.oid i) = some .name →
          ∀ raw, bind.values[i]? = some (some raw) → raw.length ≤ nameDataLen := by
        intro hoid
        simp only [DeclaredFits, hoid] at hbase
        exact hbase.1 trivial
      have hchar : col.family = .text → PgType.ofOid (bind.oid i) = some .bpchar →
          col.isCharacter = true := by
        intro hcol hoid
        simp only [DeclaredFits, hoid] at hbase
        exact (hbase.2 hcol).1 trivial
      obtain ⟨ty, rfl, huncast, hcast⟩ := param_matches hname hchar hl hop he hcasts
      by_cases hnone : castsOf node = []
      · obtain ⟨hhint, hty, raw, hraw, hd⟩ := huncast hnone
        rw [hhint] at hv
        obtain ⟨raw', v₀, hraw', hv₀, hv⟩ := shardKey_ok hv
        rw [hraw] at hraw'
        cases hraw'
        cases hv
        have hplain : col.type ≠ .name := by cases col <;> simp [Column.type]
        have hsame := param_same col.type_family hty (fun h => hname h raw hraw) hplain hv₀ hd
        rw [hnone] at hbase
        have hm := uncast_matches hbase hty hd hsame hassign
        exact assign_matches hm.2 hm.1 hassign
      · obtain ⟨_, hf, hm⟩ := hcast hnone
        exact assign_matches hf.2.2 (hm v hv) hassign

end PgShard.Postgres
