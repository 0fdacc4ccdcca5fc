import PgShard.Key.Blank
import PgShard.Postgres.Spelling

/-!
# Where the router and PostgreSQL agree on a key

The router reads the value of an operand off its spelling; PostgreSQL evaluates its casts and
the cast to the column. The two agree when the casts stay within the family of the column's
type and no text is brought to `bpchar` on its way to a `text` or `varchar` column.
-/

namespace PgShard.Postgres

open Planner Key Placement

/-- The casts around an operand. -/
def castsOf : Node → List TypeName
  | .typeCast arg tn => tn :: castsOf arg
  | _ => []

/-- The operand inside its casts. -/
def baseOf : Node → Node
  | .typeCast arg _ => baseOf arg
  | n => n

/-- A type within the family of the column, other than `name`, and `bpchar` only for a
`character` column. -/
def Fits (col : Column) (ty : PgType) : Prop :=
  ty.family = some col.family ∧ ty ≠ .name ∧ (ty = .bpchar → col.isCharacter = true)

instance (col : Column) (ty : PgType) : Decidable (Fits col ty) := inferInstanceAs (Decidable (_ ∧ _ ∧ _))

/-- What a parameter without a cast is declared as. -/
def DeclaredFits (col : Column) (bind : BindParams) (i : Nat) (uncast : Bool) : Prop :=
  match PgType.ofOid (bind.oid i) with
  | none => True
  | some ty =>
    (ty = .name → ∀ raw, bind.values[i]? = some (some raw) → raw.length ≤ nameDataLen) ∧
    (col.family = .text → (ty = .bpchar → col.isCharacter = true) ∧ (uncast = true → ty.family = some .text))

/-- Where the router and PostgreSQL agree: every cast fits the column, an integer goes into an
integer column, and a parameter is declared as something that fits. -/
def Agrees (col : Column) (bind : BindParams) (node : Node) : Prop :=
  (∀ tn ∈ castsOf node, ∃ ty length, named tn = some (ty, length) ∧ Fits col ty) ∧
  match baseOf node with
  | .aConst (.ival _) | .aConst (.fval _) => col.family = .int
  | .paramRef (i + 1) => DeclaredFits col bind i (castsOf node).isEmpty
  | _ => True

lemma Column.type_family (col : Column) : col.type.family = some col.family := by
  cases col <;> rfl

variable {col : Column} {ty : PgType} {tn : TypeName} {length : Option Nat} {item : KeyItem} {b : Bytes} {d : Datum}

lemma Column.isCharacter_of_bpchar (h : col.type = .bpchar) : col.isCharacter = true := by
  cases col <;> first | rfl | cases h

lemma Column.input_text (hcol : col.family = .text) (b : Bytes) : col.type.input b = some (.text b) := by
  cases col <;> first | rfl | cases hcol

def PgType.hint : PgType → TypeHint
  | .int2 | .int4 | .int8 => .int
  | .uuid => .uuid
  | .text | .varchar | .bpchar | .name | .char => .text

/-- The names a type goes by in a cast. -/
def PgType.names : PgType → List String
  | .int8 => ["int8", "bigint"]
  | .int4 => ["int4", "integer", "int"]
  | .int2 => ["int2", "smallint"]
  | .uuid => ["uuid"]
  | .text => ["text"]
  | .varchar => ["varchar"]
  | .bpchar => ["bpchar", "character"]
  | .name => ["name"]
  | .char => ["char"]

lemma mem_names_of_ofName {s : String} (h : PgType.ofName s = some ty) : s ∈ ty.names := by
  unfold PgType.ofName at h
  split_ifs at h <;> cases h <;> simp_all [PgType.names]

lemma castHint_of_names : ∀ ty : PgType, ∀ s ∈ ty.names, castHint s = some ty.hint := by
  intro ty
  cases ty <;> decide

lemma ne_char_of_names : ∀ ty : PgType, ty ≠ .char → ∀ s ∈ ty.names, s ≠ "char" := by
  intro ty
  cases ty <;> decide

/-- The length of a cast is the one its type carries. -/
lemma castLength_named {last : String} (hn : named tn = some (ty, length))
    (hl : tn.names.getLast? = some last) (hc : ty ≠ .char) : castHint last.toLower = some ty.hint ∧
      castLength last.toLower tn.typmods = some (length.map fun n => ⟨n, false⟩) := by
  unfold named at hn
  rw [hl] at hn
  dsimp only at hn
  split at hn
  · next hty hmods =>
    cases hn
    have hmem := mem_names_of_ofName hty
    refine ⟨castHint_of_names _ _ hmem, ?_⟩
    simp [castLength, hmods, ne_char_of_names _ hc _ hmem]
  · next n hty hmods =>
    split at hn
    · next hlen =>
      cases hn
      have hmem := mem_names_of_ofName hty
      refine ⟨castHint_of_names _ _ hmem, ?_⟩
      have hkind : last.toLower = "varchar" ∨ last.toLower = "bpchar" ∨ last.toLower = "character" := by
        rcases hlen.1 with rfl | rfl
        · exact .inl (by simpa [PgType.names] using hmem)
        · exact .inr (by simpa [PgType.names] using hmem)
      have hpos : ¬ n < 0 := by omega
      simp [castLength, hmods, ne_char_of_names _ hc _ hmem, hkind, hpos]
    · cases hn
  · cases hn

lemma named_last (hn : named tn = some (ty, length)) : ∃ last, tn.names.getLast? = some last := by
  cases h : tn.names.getLast? with
  | none => simp [named, h] at hn
  | some last => exact ⟨last, rfl⟩

/-- A text cut to the length of its cast. -/
def cut (length : Option Nat) (b : Bytes) : Bytes := truncateTo (length.map fun n => ⟨n, false⟩) b

section

variable (hn : named tn = some (ty, length))

include hn

lemma castItem_param {n : Nat} {hint : TypeHint} (hc : ty ≠ .char) (h : castItem ⟨.param n, hint⟩ tn = some item) :
    length = none ∧ item = ⟨.param n, ty.hint⟩ := by
  obtain ⟨last, hl⟩ := named_last hn
  obtain ⟨hhint, hlen⟩ := castLength_named hn hl hc
  simp only [castItem, hl, hhint, hlen] at h
  cases length with
  | none =>
    cases h
    exact ⟨rfl, rfl⟩
  | some n => cases h

lemma castItem_int {i : Int} {hint : TypeHint}
    (hc : ty ≠ .char) (h : castItem ⟨.value (.int i), hint⟩ tn = some item) :
    ty.hint = .int ∧ item = ⟨.value (.int i), hint⟩ := by
  obtain ⟨last, hl⟩ := named_last hn
  obtain ⟨hhint, hlen⟩ := castLength_named hn hl hc
  simp only [castItem, hl, hhint, hlen] at h
  split at h
  · next hint' =>
    cases h
    exact ⟨hint', rfl⟩
  · cases h

lemma castItem_text {hint : TypeHint} (hc : ty ≠ .char) (h : castItem ⟨.value (.text b), hint⟩ tn = some item) :
    (ty.hint ≠ .int ∧ item = ⟨.value (.text (cut length b)), ty.hint⟩) ∨
      ∃ i, ty.hint = .int ∧ pgStrToInt64 b = .ok i ∧ item = ⟨.value (.int i), .int⟩ := by
  obtain ⟨last, hl⟩ := named_last hn
  obtain ⟨hhint, hlen⟩ := castLength_named hn hl hc
  simp only [castItem, hl, hhint, hlen] at h
  split at h
  · next htext =>
    split at h
    · cases h
    · cases h
      left
      refine ⟨?_, rfl⟩
      rcases htext with htext | htext <;> rw [htext] <;> decide
  · next hint' =>
    split at h
    · next i hi =>
      cases h
      right
      refine ⟨i, ?_, hi, rfl⟩
      cases ty <;> simp_all [PgType.hint]
    · cases h

lemma castItem_to_param {n : Nat} {inner : KeyItem}
    (hc : ty ≠ .char) (h : castItem inner tn = some item) (hop : item.operand = .param n) :
    inner.operand = .param n ∧ length = none ∧ item = ⟨.param n, ty.hint⟩ := by
  obtain ⟨op, hint⟩ := inner
  cases op with
  | param m =>
    obtain ⟨rfl, rfl⟩ := castItem_param hn hc h
    cases hop
    exact ⟨rfl, rfl, rfl⟩
  | value v =>
    cases v with
    | int i =>
      obtain ⟨_, rfl⟩ := castItem_int hn hc h
      cases hop
    | text b =>
      rcases castItem_text hn hc h with ⟨_, rfl⟩ | ⟨i, _, _, rfl⟩ <;> cases hop
    | uuid u =>
      obtain ⟨last, hl⟩ := named_last hn
      obtain ⟨hhint, hlen⟩ := castLength_named hn hl hc
      simp [castItem, hl, hhint, hlen] at h

end

/-- The text the router holds beside the text PostgreSQL holds. -/
def TextMatches (col : Column) (b b' : Bytes) : Prop :=
  if col.isCharacter = true then SameTrimmed b' b else b' = b

/-- The router's value beside PostgreSQL's. The router keeps a uuid literal as text. -/
def Matches (col : Column) (v : Value) (d : Datum) : Prop :=
  match col.family, v, d with
  | .int, .int i, .int j => i = j
  | .uuid, .uuid u, .uuid w => u = w
  | .uuid, .text b, .uuid w => parseUUID b = some w
  | .text, .text b, .text b' => TextMatches col b b'
  | _, _, _ => False

lemma Matches.inv {v : Value} (h : Matches col v d) : (∃ i, col.family = .int ∧ v = .int i ∧ d = .int i) ∨
    (∃ u, col.family = .uuid ∧ v = .uuid u ∧ d = .uuid u) ∨
    (∃ b u, col.family = .uuid ∧ v = .text b ∧ d = .uuid u ∧ parseUUID b = some u) ∨
    (∃ b b', col.family = .text ∧ v = .text b ∧ d = .text b' ∧ TextMatches col b b') := by
  unfold Matches at h
  cases hc : col.family <;> cases v <;> cases d <;> simp_all

/-- A cast, its length included; `source` is `none` for a literal of no type yet. -/
def pgCast (source : Option PgType) (ty : PgType) (length : Option Nat) (d : Datum) : Option Datum :=
  (match source with
    | none => ty.input d.output
    | some source => explicitCast source ty d).bind (coerceLength true ty length)

lemma TextMatches.refl (col : Column) (b : Bytes) : TextMatches col b b := by
  unfold TextMatches
  split <;> rfl

lemma input_text (hf : Fits col ty) (htext : col.family = .text) (b : Bytes) : ty.input b = some (.text b) := by
  obtain ⟨hfam, hname, _⟩ := hf
  rw [htext] at hfam
  cases ty <;> simp_all [PgType.family, PgType.input]

/-- Cutting or padding to a length keeps the two texts together. -/
lemma coerceLength_text {b' : Bytes} (hf : Fits col ty) (hm : TextMatches col b b')
    (h : coerceLength true ty length (.text b') = some d) :
    ∃ b'', d = .text b'' ∧ TextMatches col (cut length b) b'' := by
  cases length with
  | none =>
    cases h
    exact ⟨b', rfl, hm⟩
  | some n =>
    unfold TextMatches at hm ⊢
    by_cases hchar : col.isCharacter = true
    · rw [if_pos hchar] at hm
      have hcut : SameTrimmed (cut (some n) b) (takeRunes n b) := sameTrimmed_cut n b
      have hboth := (hm.takeRunes n).trans hcut.symm
      simp only [coerceLength, Bool.true_or, if_true] at h
      split at h
      · next hle =>
        cases h
        refine ⟨_, rfl, ?_⟩
        rw [if_pos hchar]
        rw [takeRunes_of_le hle] at hboth
        split
        · exact (sameTrimmed_append b' _).trans hboth
        · exact hboth
      · cases h
        refine ⟨_, rfl, ?_⟩
        rw [if_pos hchar]
        exact hboth
    · rw [if_neg hchar] at hm
      have hty : ty ≠ .bpchar := fun hb => hchar (hf.2.2 hb)
      subst hm
      simp only [coerceLength, Bool.true_or, if_true, if_neg hty] at h
      split at h
      · next hle =>
        cases h
        refine ⟨_, rfl, ?_⟩
        rw [if_neg hchar]
        simp [cut, truncateTo]
        omega
      · next hgt =>
        cases h
        refine ⟨_, rfl, ?_⟩
        rw [if_neg hchar]
        simp only [cut, truncateTo, Option.map_some, Bool.false_eq_true, if_false]
        rw [if_pos (by omega)]

/-- The text a value of another text type is cast to. -/
lemma strip_matches {source target : PgType} {b' : Bytes}
    (hs : source = .bpchar → col.isCharacter = true) (hm : TextMatches col b b') :
    TextMatches col b (if source = .bpchar ∧ target ≠ .bpchar then trimRight b' else b') := by
  split
  · next hb =>
    have hchar := hs hb.1
    unfold TextMatches at hm ⊢
    rw [if_pos hchar] at hm ⊢
    exact (sameTrimmed_trimRight b').trans hm
  · exact hm

lemma length_of_named (hn : named tn = some (ty, length)) : length = none ∨ ty = .varchar ∨ ty = .bpchar := by
  unfold named at hn
  split at hn
  · cases hn
  · split at hn
    · cases hn
      exact .inl rfl
    · split at hn
      · next hlen =>
        cases hn
        exact .inr hlen.1
      · cases hn
    · cases hn

lemma Fits.ne_char (hf : Fits col ty) : ty ≠ .char := by
  rintro rfl
  exact absurd hf.1 (by simp [PgType.family])

lemma eq_uuid_of_family (h : ty.family = some .uuid) : ty = .uuid := by
  cases ty <;> first | rfl | cases h

lemma eq_uuid_of_fits (hf : Fits col ty) (h : col.family = .uuid) : ty = .uuid := eq_uuid_of_family (h ▸ hf.1)

lemma hint_of_fits (hf : Fits col ty) : ty.hint = match col.family with
      | .int => .int
      | .uuid => .uuid
      | .text => .text := by
  have := hf.1
  cases hc : col.family <;> cases ty <;> simp_all [PgType.family, PgType.hint]

lemma input_int (hfam : ty.family = some .int) (b : Bytes) : ty.input b = match pgStrToInt64 b with
      | .ok i => if ty.inRange i then some (.int i) else none
      | .error _ => none := by
  cases ty <;> first | rfl | cases hfam

/-- What the router holds of a literal beside what PostgreSQL holds. -/
def LiteralMatches (col : Column) (v : Value) (source : Option PgType) (d : Datum) : Prop :=
  match source with
  | none => ∃ b, v = .text b ∧ d = .text b
  | some ty => Matches col v d ∧ (ty = .bpchar → col.isCharacter = true)

/-- A first cast types the literal. -/
lemma cast_untyped {hint : TypeHint} (hn : named tn = some (ty, length)) (hf : Fits col ty)
    (hi : castItem ⟨.value (.text b), hint⟩ tn = some item) (hd : pgCast none ty length (.text b) = some d) :
    ∃ v, item.operand = .value v ∧ Matches col v d := by
  obtain ⟨x, hx, hlen⟩ := Option.bind_eq_some_iff.mp hd
  have hx : ty.input b = some x := hx
  have hhint := hint_of_fits hf
  rcases castItem_text hn hf.ne_char hi with ⟨hne, rfl⟩ | ⟨i, hint', hparse, rfl⟩
  · refine ⟨_, rfl, ?_⟩
    cases hcol : col.family with
    | int => rw [hhint, hcol] at hne; exact absurd rfl hne
    | uuid =>
      have hty := eq_uuid_of_fits hf hcol
      subst hty
      have hnone : length = none := by simpa using length_of_named hn
      subst hnone
      cases hp : parseUUID b with
      | none => simp [PgType.input, hp] at hx
      | some u =>
        simp only [PgType.input, hp, Option.map_some, Option.some.injEq] at hx
        subst hx
        cases hlen
        simpa [Matches, hcol, cut, truncateTo] using hp
    | text =>
      rw [input_text hf hcol] at hx
      cases hx
      obtain ⟨b'', rfl, hm⟩ := coerceLength_text hf (TextMatches.refl col b) hlen
      simpa [Matches, hcol] using hm
  · refine ⟨_, rfl, ?_⟩
    have hcol : col.family = .int := by
      cases hc : col.family <;> rw [hhint, hc] at hint' <;> first | rfl | cases hint'
    rw [input_int (hcol ▸ hf.1), hparse] at hx
    dsimp only at hx
    split at hx
    · cases hx
      cases hlen
      simp [Matches, hcol]
    · cases hx

/-- A further cast keeps the two values together. -/
lemma cast_typed {source : PgType} {v : Value} {hint : TypeHint} {d' : Datum}
    (hn : named tn = some (ty, length)) (hf : Fits col ty)
    (hs : source = .bpchar → col.isCharacter = true) (hm : Matches col v d)
    (hi : castItem ⟨.value v, hint⟩ tn = some item) (hd : pgCast (some source) ty length d = some d') :
    ∃ v', item.operand = .value v' ∧ Matches col v' d' := by
  obtain ⟨x, hx, hlen⟩ := Option.bind_eq_some_iff.mp hd
  have hx : explicitCast source ty d = some x := hx
  have hfam := hf.1
  rcases hm.inv with ⟨i, hcol, rfl, rfl⟩ | ⟨u, hcol, rfl, rfl⟩ | ⟨b, u, hcol, rfl, rfl, hp⟩ |
    ⟨b, b', hcol, rfl, rfl, htext⟩
  · obtain ⟨_, rfl⟩ := castItem_int hn hf.ne_char hi
    refine ⟨_, rfl, ?_⟩
    rw [hcol] at hfam
    simp only [explicitCast, hfam] at hx
    split at hx
    · cases hx
      cases hlen
      simp [Matches, hcol]
    · cases hx
  · obtain ⟨last, hl⟩ := named_last hn
    obtain ⟨hhint, hlen'⟩ := castLength_named hn hl hf.ne_char
    simp [castItem, hl, hhint, hlen'] at hi
  · have hty := eq_uuid_of_fits hf hcol
    subst hty
    have hnone : length = none := by simpa using length_of_named hn
    subst hnone
    rcases castItem_text hn hf.ne_char hi with ⟨_, rfl⟩ | ⟨i, hint', _⟩
    · refine ⟨_, rfl, ?_⟩
      cases hx
      cases hlen
      simpa [Matches, hcol, cut, truncateTo] using hp
    · cases hint'
  · have hhint := hint_of_fits hf
    rw [hcol] at hfam hhint
    rcases castItem_text hn hf.ne_char hi with ⟨_, rfl⟩ | ⟨i, hint', _⟩
    · refine ⟨_, rfl, ?_⟩
      simp only [explicitCast, hfam] at hx
      rw [input_text hf hcol] at hx
      cases hx
      obtain ⟨b'', rfl, hm'⟩ := coerceLength_text hf (strip_matches hs htext) hlen
      simpa [Matches, hcol] using hm'
    · rw [hhint] at hint'
      cases hint'

lemma eval_cast {bind : BindParams} {context : PgType} {arg : Node} {source : Option PgType}
    (h : eval bind context (.typeCast arg tn) = some (source, d)) :
    ∃ ty length source' d', named tn = some (ty, length) ∧ eval bind ty arg = some (source', d') ∧
      pgCast source' ty length d' = some d ∧ source = some ty := by
  rw [eval] at h
  split at h
  · cases h
  · next ty length hn =>
    split at h
    · cases h
    · next source' d' he =>
      obtain ⟨x, hx, heq⟩ := Option.map_eq_some_iff.mp h
      cases heq
      exact ⟨ty, length, source', d', hn, he, hx, rfl⟩

/-- An integer constant goes into an integer column. -/
def IntFits (col : Column) : Node → Prop
  | .aConst (.ival _) | .aConst (.fval _) => col.family = .int
  | _ => True

lemma literal_matches {bind : BindParams} {node : Node} {item : KeyItem} (hl : literal node = some item) :
    ∀ {context : PgType} {v : Value} {source : Option PgType} {d : Datum}, item.operand = .value v →
      eval bind context node = some (source, d) →
      (∀ tn ∈ castsOf node, ∃ ty length, named tn = some (ty, length) ∧ Fits col ty) →
      IntFits col (baseOf node) → LiteralMatches col v source d := by
  induction hl using literal_induction with
  | param n h =>
    intro context v source d hv
    cases hv
  | cast arg tn inner item harg h hl ih =>
    intro context v source d hv he hcasts hbase
    obtain ⟨ty, length, source', d', hn, he', hcast, rfl⟩ := eval_cast he
    obtain ⟨ty', length', hn', hf⟩ := hcasts tn (by simp [castsOf])
    rw [hn] at hn'
    cases hn'
    have hop : ∃ w, inner.operand = .value w := by
      cases hop : inner.operand with
      | value w => exact ⟨w, rfl⟩
      | param n =>
        obtain ⟨rfl, rfl⟩ := castItem_param (n := n) hn hf.ne_char (by rw [← hop]; exact hl)
        cases hv
    obtain ⟨w, hw⟩ := hop
    have hbefore := ih hw he' (fun tn' htn' => hcasts tn' (by simp [castsOf, htn'])) hbase
    have hitem : castItem ⟨.value w, inner.hint⟩ tn = some item := by rw [← hw]; exact hl
    have hafter : ∃ v', item.operand = .value v' ∧ Matches col v' d := by
      cases source' with
      | none =>
        obtain ⟨b, rfl, rfl⟩ := hbefore
        exact cast_untyped hn hf hitem hcast
      | some source' => exact cast_typed hn hf hbefore.2 hbefore.1 hitem hcast
    obtain ⟨v', hv', hm⟩ := hafter
    rw [hv] at hv'
    cases hv'
    exact ⟨hm, hf.2.2⟩
  | ival i h =>
    intro context v source d hv he _ hbase
    cases hv
    cases he
    have hcol : col.family = .int := hbase
    exact ⟨by simp [Matches, hcol], by simp⟩
  | fval s i h hp =>
    intro context v source d hv he _ hbase
    simp only [eval, hp] at he
    cases hv
    cases he
    have hcol : col.family = .int := hbase
    exact ⟨by simp [Matches, hcol], by simp⟩
  | sval s h =>
    intro context v source d hv he _ _
    cases hv
    cases he
    exact ⟨_, rfl, rfl⟩

end PgShard.Postgres
