import PgShard.Hoare.Leads
import PgShard.Postgres.Agree

/-!
# Bound parameters under their casts

What the router decodes a parameter to, and what PostgreSQL makes of it: the type it was
declared with, or the one its cast or the column gives it, and then the casts of the statement.
-/

namespace PgShard.Postgres

open Planner Key Placement

/-- A bound value decoded by both sides. -/
inductive SameValue : Value → Datum → Prop where
  | int (i : Int) : SameValue (.int i) (.int i)
  | uuid (u : Bytes) : SameValue (.uuid u) (.uuid u)
  | text (b : Bytes) : SameValue (.text b) (.text b)

/-- The bytes of an integer on the wire. -/
def PgType.width : PgType → Nat
  | .int2 => 2
  | .int4 => 4
  | _ => 8

variable {oid format i : Nat} {ty : PgType} {raw : Bytes} {v : Value} {d : Datum} {bind : BindParams} {col : Column}

lemma decodeParam_int (ho : PgType.ofOid oid = some ty) (hfam : ty.family = some .int)
    (hv : decodeParam oid format raw = .ok v) : ∃ i, v = .int i ∧ if format = 1 then
      raw.length = ty.width ∧ i = signed (8 * raw.length) (bigEndian raw) else pgStrToInt64 raw = .ok i := by
  have hoid : oid = oidInt8 ∧ ty = .int8 ∨ oid = oidInt4 ∧ ty = .int4 ∨ oid = oidInt2 ∧ ty = .int2 := by
    unfold PgType.ofOid at ho
    split_ifs at ho <;> cases ho <;> simp_all [PgType.family]
  unfold decodeParam at hv
  split at hv
  · next hb =>
    have hlen : raw.length = ty.width ∧ v = .int (signed (8 * raw.length) (bigEndian raw)) := by
      rcases hoid with ⟨rfl, rfl⟩ | ⟨rfl, rfl⟩ | ⟨rfl, rfl⟩
      all_goals
        simp only [decodeBinary, oidInt8, oidInt4, oidInt2, if_true, if_false, Nat.reduceEqDiff] at hv
        split at hv
        · cases hv
        · next hlen =>
          cases hv
          rw [Decidable.not_not.mp hlen]
          exact ⟨rfl, rfl⟩
    exact ⟨_, hlen.2, by rw [if_pos hb]; exact ⟨hlen.1, rfl⟩⟩
  · next hb =>
    have hint : oid = oidInt8 ∨ oid = oidInt4 ∨ oid = oidInt2 := by tauto
    unfold decodeText at hv
    rw [if_pos hint] at hv
    split at hv
    · cases hv
    · next i hp =>
      cases hv
      exact ⟨i, rfl, by rw [if_neg hb]; exact hp⟩

lemma decodeParam_uuid (hv : decodeParam oidUUID format raw = .ok v) :
    ∃ u, v = .uuid u ∧ if format = 1 then u = raw else parseUUID raw = some u := by
  unfold decodeParam at hv
  split at hv
  · next hb =>
    simp only [decodeBinary, oidUUID, oidInt8, oidInt4, oidInt2, untyped, oidUnknown, if_false,
      Nat.reduceEqDiff, decide_false, Bool.or_self, Bool.false_eq_true, if_true] at hv
    split at hv
    · cases hv
    · cases hv
      exact ⟨raw, rfl, by rw [if_pos hb]⟩
  · next hb =>
    simp only [decodeText, oidUUID, oidInt8, oidInt4, oidInt2, if_false, Nat.reduceEqDiff, or_self, if_true] at hv
    split at hv
    · cases hv
    · next u hp =>
      cases hv
      exact ⟨u, rfl, by rw [if_neg hb]; exact hp⟩

lemma decodeParam_text (ho : PgType.ofOid oid = some ty) (hfam : ty.family = some .text)
    (hv : decodeParam oid format raw = .ok v) : v = .text raw := by
  have hoid : oid = oidText ∨ oid = oidVarchar ∨ oid = oidName ∨ oid = oidBpchar := by
    unfold PgType.ofOid at ho
    split_ifs at ho <;> cases ho <;> simp_all [PgType.family]
  unfold decodeParam at hv
  split at hv
  · rcases hoid with rfl | rfl | rfl | rfl <;> cases hv <;> rfl
  · rcases hoid with rfl | rfl | rfl | rfl <;> cases hv <;> rfl

lemma decode_int (hfam : ty.family = some .int) (hd : ty.decode format raw = some d) :
    ∃ i, d = .int i ∧ if format = 1 then
      raw.length = ty.width ∧ i = signed (8 * raw.length) (bigEndian raw) else pgStrToInt64 raw = .ok i := by
  unfold PgType.decode at hd
  split at hd
  · next hb =>
    simp only [if_pos hb]
    cases ty with
    | int2 | int4 | int8 =>
      simp only [PgType.recv] at hd
      split at hd
      · next hlen =>
        cases hd
        exact ⟨_, rfl, hlen, by rw [hlen]⟩
      · cases hd
    | _ => cases hfam
  · next hb =>
    simp only [if_neg hb]
    rw [input_int hfam] at hd
    split at hd
    · next i hp =>
      split at hd
      · cases hd
        exact ⟨i, rfl, hp⟩
      · cases hd
    · cases hd

lemma ofOid_family (h : PgType.ofOid oid = some ty) : ∃ family, ty.family = some family := by
  unfold PgType.ofOid at h
  split_ifs at h <;> cases h <;> exact ⟨_, rfl⟩

/-- Two types of one family read a bound value alike, where both can. -/
lemma decode_same {ty' : PgType} (ho : PgType.ofOid oid = some ty) (hfam : ty.family = ty'.family)
    (hname : ty' = .name → raw.length ≤ nameDataLen) (hv : decodeParam oid format raw = .ok v)
    (hd : ty'.decode format raw = some d) : SameValue v d := by
  obtain ⟨family, hf⟩ := ofOid_family ho
  cases family with
  | int =>
    obtain ⟨i, rfl, hi⟩ := decodeParam_int ho hf hv
    obtain ⟨j, rfl, hj⟩ := decode_int (hfam ▸ hf) hd
    have hij : i = j := by
      split at hi
      · next hb =>
        rw [if_pos hb] at hj
        rw [hi.2, hj.2]
      · next hb =>
        rw [if_neg hb, hi] at hj
        exact Except.ok.inj hj
    rw [hij]
    exact .int j
  | uuid =>
    obtain rfl := eq_uuid_of_family (hfam ▸ hf)
    obtain rfl := eq_uuid_of_family hf
    have hoid : oid = oidUUID := by
      unfold PgType.ofOid at ho
      split_ifs at ho <;> cases ho
      assumption
    rw [hoid] at hv
    obtain ⟨u, rfl, hu⟩ := decodeParam_uuid hv
    unfold PgType.decode at hd
    split at hd
    · next hb =>
      rw [if_pos hb] at hu
      simp only [PgType.recv] at hd
      split at hd
      · cases hd
        rw [hu]
        exact .uuid raw
      · cases hd
    · next hb =>
      rw [if_neg hb] at hu
      simp only [PgType.input, hu, Option.map_some, Option.some.injEq] at hd
      rw [← hd]
      exact .uuid u
  | text =>
    rw [decodeParam_text ho hf hv]
    have hd' : d = .text raw := by
      rw [hfam] at hf
      unfold PgType.decode at hd
      split at hd
      · cases ty' with
        | name =>
          simp only [PgType.recv, if_pos (hname rfl)] at hd
          exact (Option.some.inj hd).symm
        | text | varchar | bpchar => exact (Option.some.inj hd).symm
        | _ => cases hf
      · cases ty' with
        | name =>
          simp only [PgType.input, PgType.clip, if_pos (hname rfl)] at hd
          exact (Option.some.inj hd).symm
        | text | varchar | bpchar => exact (Option.some.inj hd).symm
        | _ => cases hf
    rw [hd']
    exact .text raw

lemma untyped_ofOid (h : PgType.ofOid oid = some ty) : untyped oid = false := by
  unfold PgType.ofOid at h
  split_ifs at h <;> subst_vars <;> rfl

/-- The type an untyped parameter gets from the column. -/
lemma inferredOID_type (col : Column) : ∃ ty, PgType.ofOid (inferredOID col.spelling) = some ty ∧
    ty.family = some col.family := by
  unfold inferredOID
  rw [parseCharType_spelling]
  cases col with
  | character length => cases length <;> exact ⟨_, rfl, rfl⟩
  | _ => exact ⟨_, rfl, rfl⟩

/-- The router's decoding of a parameter and the cast over it. -/
lemma shardKey_ok {hint : TypeHint} (h : bind.shardKey (i + 1) hint col.spelling = .ok v) :
    ∃ raw v₀, bind.values[i]? = some (some raw) ∧
      decodeParam (if untyped (bind.oid i) then inferredOID col.spelling else bind.oid i)
        (bind.format i) raw = .ok v₀ ∧ applyCast v₀ hint = .ok v := by
  obtain ⟨ty, hty, _⟩ := inferredOID_type col
  have htyped : untyped (if untyped (bind.oid i) = true then inferredOID col.spelling else bind.oid i)
      = false := by
    split
    · exact untyped_ofOid hty
    · next hu => simpa using hu
  unfold BindParams.shardKey at h
  dsimp only at h
  split at h
  · cases h
  · cases h
  · next raw hraw =>
    simp only [decodeShardKey, htyped, Bool.false_eq_true, if_false] at h
    obtain ⟨v₀, hv₀, hv⟩ := Hoare.bind_eq_ok h
    exact ⟨raw, v₀, hraw, hv₀, hv⟩

/-- The first cast of a parameter brings both sides to the column's family. -/
lemma cast_param {source : PgType} {v₀ : Value} {d₀ : Datum} (hf : Fits col ty)
    (hs : col.family = .text → source = .bpchar → col.isCharacter = true) (hsame : SameValue v₀ d₀)
    (hv : applyCast v₀ ty.hint = .ok v) (hd : explicitCast source ty d₀ = some d) : Matches col v d := by
  have hfam := hf.1
  have hhint := hint_of_fits hf
  cases hcol : col.family with
  | int =>
    rw [hcol] at hfam hhint
    rw [hhint] at hv
    cases hsame with
    | int i =>
      cases hv
      simp only [explicitCast, hfam] at hd
      split at hd
      · cases hd
        simp [Matches, hcol]
      · cases hd
    | uuid u => cases hv
    | text b =>
      simp only [applyCast] at hv
      simp only [explicitCast, hfam] at hd
      rw [input_int hfam] at hd
      split at hv
      · cases hv
      · next i hp =>
        cases hv
        rw [hp] at hd
        dsimp only at hd
        split at hd
        · cases hd
          simp [Matches, hcol]
        · cases hd
  | uuid =>
    obtain rfl := eq_uuid_of_fits hf hcol
    cases hsame with
    | int i => cases hd
    | uuid u =>
      cases hv
      cases hd
      simp [Matches, hcol]
    | text b =>
      simp only [applyCast, PgType.hint] at hv
      split at hv
      · cases hv
      · next u hp =>
        cases hv
        simp only [explicitCast, PgType.family, PgType.input, hp, Option.map_some, Option.some.injEq] at hd
        subst hd
        simp [Matches, hcol]
  | text =>
    rw [hcol] at hfam hhint
    rw [hhint] at hv
    cases hsame with
    | int i =>
      cases hv
      simp only [explicitCast, hfam] at hd
      rw [input_text hf hcol] at hd
      cases hd
      simpa [Matches, hcol] using TextMatches.refl col _
    | uuid u =>
      cases hv
      simp only [explicitCast, hfam] at hd
      rw [input_text hf hcol] at hd
      cases hd
      simpa [Matches, hcol] using TextMatches.refl col _
    | text b =>
      cases hv
      simp only [explicitCast, hfam] at hd
      rw [input_text hf hcol] at hd
      cases hd
      simpa [Matches, hcol] using strip_matches (hs hcol) (TextMatches.refl col b)

/-- A further cast of a parameter changes nothing. -/
lemma cast_again {source : PgType} {d' : Datum} (hf : Fits col ty)
    (hs : source = .bpchar → col.isCharacter = true) (hm : Matches col v d)
    (hd : explicitCast source ty d = some d') : Matches col v d' := by
  have hfam := hf.1
  rcases hm.inv with ⟨i, hcol, rfl, rfl⟩ | ⟨u, hcol, rfl, rfl⟩ | ⟨b, u, hcol, rfl, rfl, hp⟩ |
    ⟨b, b', hcol, rfl, rfl, htext⟩
  · rw [hcol] at hfam
    simp only [explicitCast, hfam] at hd
    split at hd
    · cases hd
      exact hm
    · cases hd
  · obtain rfl := eq_uuid_of_fits hf hcol
    cases hd
    exact hm
  · obtain rfl := eq_uuid_of_fits hf hcol
    cases hd
    exact hm
  · rw [hcol] at hfam
    simp only [explicitCast, hfam] at hd
    rw [input_text hf hcol] at hd
    cases hd
    simpa [Matches, hcol] using strip_matches hs htext

/-- The type PostgreSQL reads a parameter by. -/
def paramType (bind : BindParams) (i : Nat) (context : PgType) : Option PgType :=
  if untyped (bind.oid i) then some context else PgType.ofOid (bind.oid i)

lemma eval_param {context : PgType} {n : Nat} {source : Option PgType}
    (h : eval bind context (.paramRef n) = some (source, d)) :
    ∃ i raw ty, n = i + 1 ∧ bind.values[i]? = some (some raw) ∧ source = some ty ∧
      paramType bind i context = some ty ∧ ty.decode (bind.format i) raw = some d := by
  cases n with
  | zero => cases h
  | succ i =>
    rw [eval] at h
    split at h
    · next raw hraw =>
      obtain ⟨ty, hty, h⟩ := Option.bind_eq_some_iff.mp h
      obtain ⟨x, hx, heq⟩ := Option.map_eq_some_iff.mp h
      cases heq
      exact ⟨i, raw, ty, rfl, hraw, rfl, hty, hx⟩
    · cases h

/-- Both sides read the bound value alike. -/
lemma param_same {col : Column} {bind : BindParams} {i : Nat} {context ty : PgType} {raw : Bytes}
    {v : Value} {d : Datum} (hcontext : context.family = some col.family) (hty : paramType bind i context = some ty)
    (hname : PgType.ofOid (bind.oid i) = some .name → raw.length ≤ nameDataLen) (hplain : context ≠ .name)
    (hv : decodeParam (if untyped (bind.oid i) then inferredOID col.spelling else bind.oid i)
      (bind.format i) raw = .ok v) (hd : ty.decode (bind.format i) raw = some d) : SameValue v d := by
  unfold paramType at hty
  split at hty
  · next hu =>
    cases hty
    obtain ⟨ty', hty', hfam⟩ := inferredOID_type col
    rw [if_pos hu] at hv
    exact decode_same hty' (hfam.trans hcontext.symm) (fun h => absurd h hplain) hv hd
  · next hu =>
    rw [if_neg hu] at hv
    exact decode_same hty rfl (fun h => hname (h ▸ hty)) hv hd

/-- What the router makes of a parameter under its casts beside what PostgreSQL does. -/
def ParamMatches (col : Column) (bind : BindParams) (node : Node) (context : PgType) (i : Nat)
    (hint : TypeHint) (ty : PgType) (d : Datum) : Prop :=
  (castsOf node = [] → hint = .none ∧ paramType bind i context = some ty ∧
    ∃ raw, bind.values[i]? = some (some raw) ∧ ty.decode (bind.format i) raw = some d) ∧
  (castsOf node ≠ [] → hint = ty.hint ∧ Fits col ty ∧
    ∀ v, bind.shardKey (i + 1) hint col.spelling = .ok v → Matches col v d)

lemma param_matches {node : Node} {item : KeyItem}
    (hname : PgType.ofOid (bind.oid i) = some .name → ∀ raw, bind.values[i]? = some (some raw) → raw.length ≤ nameDataLen)
    (hchar : col.family = .text → PgType.ofOid (bind.oid i) = some .bpchar → col.isCharacter = true)
    (hl : literal node = some item) :
    ∀ {context : PgType} {source : Option PgType} {d : Datum}, item.operand = .param (i + 1) →
      eval bind context node = some (source, d) →
      (∀ tn ∈ castsOf node, ∃ ty length, named tn = some (ty, length) ∧ Fits col ty) →
      ∃ ty, source = some ty ∧ ParamMatches col bind node context i item.hint ty d := by
  induction hl using literal_induction with
  | param n h =>
    intro context source d hop he _
    cases hop
    obtain ⟨i', raw, ty, hn, hraw, rfl, hty, hd⟩ := eval_param he
    cases hn
    exact ⟨ty, rfl, fun _ => ⟨rfl, hty, raw, hraw, hd⟩, fun h => absurd rfl h⟩
  | cast arg tn inner item harg h hl ih =>
    intro context source d hop he hcasts
    obtain ⟨ty, length, source', d', hn, he', hcast, rfl⟩ := eval_cast he
    obtain ⟨ty', length', hn', hf⟩ := hcasts tn (by simp [castsOf])
    rw [hn] at hn'
    cases hn'
    obtain ⟨hinner, rfl, rfl⟩ := castItem_to_param hn hf.ne_char hl hop
    obtain ⟨source'', rfl, hbase, hmore⟩ := ih hinner he'
      (fun tn' htn' => hcasts tn' (by simp [castsOf, htn']))
    have hcast : explicitCast source'' ty d' = some d := by
      obtain ⟨x, hx, hlen⟩ := Option.bind_eq_some_iff.mp hcast
      cases x <;> cases hlen <;> exact hx
    refine ⟨ty, rfl, by simp [castsOf], fun _ => ⟨rfl, hf, ?_⟩⟩
    intro v hv
    by_cases hnone : castsOf arg = []
    · obtain ⟨_, hty, raw, hraw, hd'⟩ := hbase hnone
      obtain ⟨raw', v₀, hraw', hv₀, hv⟩ := shardKey_ok hv
      rw [hraw] at hraw'
      cases hraw'
      have hsame := param_same hf.1 hty (fun h => hname h raw hraw) hf.2.1 hv₀ hd'
      refine cast_param hf ?_ hsame hv hcast
      intro htext hb
      subst hb
      unfold paramType at hty
      split at hty
      · exact hf.2.2 (Option.some.inj hty)
      · exact hchar htext hty
    · obtain ⟨hhint, hf', hm⟩ := hmore hnone
      have hsame : inner.hint = ty.hint := by rw [hhint, hint_of_fits hf, hint_of_fits hf']
      exact cast_again hf hf'.2.2 (hm v (by rw [hsame]; exact hv)) hcast
  | _ =>
    intro context source d hop
    cases hop

end PgShard.Postgres
