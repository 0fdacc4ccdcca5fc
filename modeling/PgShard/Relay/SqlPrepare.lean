import PgShard.Relay.PreparedSet

/-!
# PREPARE in the texts a session sends

What PostgreSQL's lexer reads as PREPARE and a name, and when the pooler sees it. The pooler looks for
the word and takes it for PREPARE TRANSACTION by what follows the blanks and comments after it; where
it ends a comment or a word later or earlier than PostgreSQL does, it can look at the wrong one.
-/

namespace PgShard.Relay

/-- A block comment from inside `depth` openings to the closing of the outermost. -/
inductive Block : Nat → List Char → Prop
  | done : Block 0 []
  | opens {depth s} (h : Block (depth + 2) s) : Block (depth + 1) ('/' :: '*' :: s)
  | closes {depth s} (h : Block depth s) : Block (depth + 1) ('*' :: '/' :: s)
  | inside {depth c s} (h : Block (depth + 1) s)
      (hopens : ¬['/', '*'] <+: c :: s) (hcloses : ¬['*', '/'] <+: c :: s) : Block (depth + 1) (c :: s)

/-- Blanks and comments; `ends` says which of the ends of a line there are after line comments. -/
inductive Noise (ends : Char → Prop) : List Char → Prop
  | nil : Noise ends []
  | blank {c s} (hc : c ∈ [' ', '\t', '\n', '\r', '\x0c', '\x0b']) (h : Noise ends s) :
      Noise ends (c :: s)
  | line {body s c} (hbody : ∀ d ∈ body, d ≠ '\n' ∧ d ≠ '\r') (hc : c ∈ ['\n', '\r'])
      (hends : ends c) (h : Noise ends s) : Noise ends ('-' :: '-' :: (body ++ c :: s))
  | block {body s} (hbody : Block 1 body) (h : Noise ends s) :
      Noise ends ('/' :: '*' :: (body ++ s))

/-- Characters beyond ASCII continue a name. -/
def identCont (c : Char) : Bool := identByte c || 128 ≤ c.toNat

/-- A name, before what is not part of it; what stands inside quotes is no matter. -/
inductive Name : List Char → List Char → Prop
  | plain {c s rest} (hc : identCont c = true) (hs : ∀ d ∈ s, identCont d = true)
      (hrest : ∀ d ∈ rest.head?, identCont d = false) : Name (c :: s) rest
  | quoted {s rest} : Name ('"' :: s) rest

/-- The texts that are PREPARE and a name, in their parts. -/
structure Prepares (lead word gap name rest : List Char) : Prop where
  leads : Noise (fun _ => True) lead
  prepare : word.map upperASCII = "PREPARE".toList
  gaps : Noise (fun _ => True) gap
  named : Name name rest
  apart : gap = [] → name.head? = some '"'

/-- One of the words is in the text, in any letter case. -/
def Mentions (toUpper : String → String) (s : List Char) : Prop :=
  ∃ word ∈ ["DEALLOCATE".toList, "DISCARD".toList],
    word <:+: if isASCII s then s.map upperASCII else (toUpper (String.ofList s)).toList

variable {ends : Char → Prop} {s t word gap name rest : List Char} {c : Char} {depth n : Nat} {b : Bool}

lemma startsFold_iff : startsFold s word = true ↔ word <+: s.map upperASCII := by
  induction word generalizing s with
  | nil => cases s <;> simp [startsFold]
  | cons c word ih =>
    cases s with
    | nil => simp [startsFold]
    | cons d s => simp [startsFold, ih, List.cons_prefix_cons, @eq_comm _ c]

lemma containsFold_iff : containsFold word s = true ↔ word <:+: s.map upperASCII := by
  induction s with
  | nil => simp [containsFold, startsFold_iff]
  | cons c s ih => simp [containsFold, startsFold_iff, ih, List.infix_cons_iff]

lemma contains_iff : contains word s = true ↔ word <:+: s := by
  induction s with
  | nil => simp [contains]
  | cons c s ih => simp [contains, ih, List.infix_cons_iff]

lemma touchesPrepared_iff (toUpper : String → String) :
    touchesPrepared toUpper (String.ofList s) = true ↔ Mentions toUpper s := by
  unfold touchesPrepared Mentions
  rw [String.toList_ofList]
  cases isASCII s <;> simp [containsFold_iff, contains_iff]

lemma skipLine_append {body : List Char} (h : ∀ d ∈ body, d ≠ '\n' ∧ d ≠ '\r') :
    skipLine (body ++ '\n' :: s) = s := by
  induction body with
  | nil => rfl
  | cons d body ih =>
    rw [List.cons_append, skipLine, if_neg (h d List.mem_cons_self).1]
    exact ih fun e he => h e (List.mem_cons_of_mem d he)

lemma Block.skip (h : Block depth s) : skipBlock depth (s ++ t) = t := by
  induction h with
  | done => simp [skipBlock]
  | opens h ih => exact ih
  | closes h ih => exact ih
  | @inside depth c s h hopens hcloses ih =>
    rw [List.cons_append, skipBlock]
    · exact ih
    · rintro s' rfl hs
      cases h <;> simp_all
    · rintro s' rfl hs
      cases h <;> simp_all

/-- The blanks and comments before a name are skipped, where no comment ends at a carriage return. -/
lemma Noise.skip (h : Noise (· = '\n') gap) (hfuel : gap.length ≤ n)
    (ht : ∀ n, skipNoise n t = t) : skipNoise n (gap ++ t) = t := by
  induction h generalizing n with
  | nil => exact ht n
  | blank hc h ih =>
    obtain ⟨n, rfl⟩ := Nat.exists_eq_add_of_lt hfuel
    have hrest := ih (n := _ + n) (Nat.le_add_right _ _)
    simp only [List.mem_cons, List.not_mem_nil, or_false] at hc
    rcases hc with rfl | rfl | rfl | rfl | rfl | rfl <;> exact hrest
  | @line body s c hbody hc hends h ih =>
    subst hends
    obtain ⟨n, rfl⟩ := Nat.exists_eq_add_of_lt hfuel
    simp only [List.cons_append, List.append_assoc, skipNoise, skipLine_append hbody]
    refine ih ?_
    simp only [List.length_cons, List.length_append]
    omega
  | @block body s hbody h ih =>
    obtain ⟨n, rfl⟩ := Nat.exists_eq_add_of_lt hfuel
    simp only [List.cons_append, List.append_assoc, skipNoise, hbody.skip]
    refine ih ?_
    simp only [List.length_cons, List.length_append]
    omega

/-- Whether the character before the rest cannot continue a word, after a part of the text. -/
def boundary (b : Bool) (s : List Char) : Bool := s.foldl (fun _ c => !identByte c) b

lemma createsFrom_append (h : createsFrom (boundary b s) t = true) : createsFrom b (s ++ t) = true := by
  induction s generalizing b with
  | nil => exact h
  | cons c s ih => simp [createsFrom, ih h]

lemma Block.boundary (h : Block depth s) (hb : depth = 0 → b = true) : boundary b s = true := by
  induction h generalizing b with
  | done => exact hb rfl
  | opens h ih => exact ih nofun
  | closes h ih => exact ih fun _ => rfl
  | inside h _ _ ih => exact ih nofun

lemma Noise.boundary (h : Noise ends s) : boundary true s = true := by
  induction h with
  | nil => rfl
  | blank hc h ih =>
    simp only [List.mem_cons, List.not_mem_nil, or_false] at hc
    rcases hc with rfl | rfl | rfl | rfl | rfl | rfl <;> exact ih
  | @line body s c hbody hc hends h ih =>
    have hafter : Relay.boundary true ('-' :: '-' :: (body ++ c :: s)) = Relay.boundary (!identByte c) s := by
      simp [Relay.boundary]
    rw [hafter]
    simp only [List.mem_cons, List.not_mem_nil, or_false] at hc
    rcases hc with rfl | rfl <;> exact ih
  | @block body s hbody h ih =>
    have hafter : Relay.boundary true ('/' :: '*' :: (body ++ s)) =
        Relay.boundary (Relay.boundary true body) s := by
      simp [Relay.boundary, identByte, upperASCII]
    rw [hafter, hbody.boundary nofun]
    exact ih

lemma Noise.head (h : Noise ends s) (hc : s.head? = some c) : identByte c = false := by
  cases h with
  | nil => cases hc
  | blank hd _ =>
    cases hc
    simp only [List.mem_cons, List.not_mem_nil, or_false] at hd
    rcases hd with rfl | rfl | rfl | rfl | rfl | rfl <;> rfl
  | line => cases hc; rfl
  | block => cases hc; rfl

lemma afterWord_append (hw : name.map upperASCII = word) (ht : ∀ c ∈ t.head?, identByte c = false) :
    afterWord word (name ++ t) = some t := by
  have hlen : word.length = name.length := by rw [← hw, List.length_map]
  have hstarts : startsFold (name ++ t) word = true :=
    startsFold_iff.mpr ⟨t.map upperASCII, by rw [List.map_append, hw]⟩
  rw [afterWord, if_pos hstarts, hlen, List.drop_left]
  cases t with
  | nil => rfl
  | cons c t => simp [ht c rfl]

lemma startsFold_left (hword : ∀ w ∈ word, 'A' ≤ w ∧ w ≤ 'Z') (ht : ∀ c ∈ t.head?, identCont c = false)
    (h : startsFold (s ++ t) word = true) : startsFold s word = true := by
  induction word generalizing s with
  | nil => cases s <;> rfl
  | cons w word ih =>
    cases s with
    | nil =>
      cases t with
      | nil => exact h
      | cons d t =>
        simp only [List.nil_append, startsFold, Bool.and_eq_true, beq_iff_eq] at h
        have hident := ht d rfl
        simp [identCont, identByte, h.1, hword w List.mem_cons_self] at hident
    | cons d s =>
      simp only [List.cons_append, startsFold, Bool.and_eq_true] at h ⊢
      exact ⟨h.1, ih (fun w hw => hword w (.tail _ hw)) h.2⟩

lemma Name.afterWord_none (h : Name name rest) (hname : afterWord "TRANSACTION".toList name = none) :
    afterWord "TRANSACTION".toList (name ++ rest) = none := by
  cases h with
  | quoted => rfl
  | @plain c s _ hc hs hrest =>
    unfold afterWord at hname ⊢
    split
    · rename_i hstarts
      have hstarts := startsFold_left (by simp) hrest hstarts
      have hlen : ("TRANSACTION".toList).length ≤ (c :: s).length := by
        simpa using (startsFold_iff.mp hstarts).length_le
      rw [if_pos hstarts] at hname
      rw [List.drop_append_of_le_length hlen]
      cases hdrop : (c :: s).drop ("TRANSACTION".toList).length with
      | nil =>
        rw [hdrop] at hname
        cases hname
      | cons d post =>
        rw [hdrop] at hname
        simpa using hname
    · rfl

lemma Name.solid (h : Name name rest) : ∀ n, skipNoise n (name ++ rest) = name ++ rest := by
  intro n
  cases n with
  | zero => rfl
  | succ n =>
    cases h with
    | quoted => rfl
    | @plain c s _ hc hs hrest =>
      have hne : ∀ d ∈ ['-', '/', ' ', '\t', '\n', '\r', '\x0c', '\x0b'], c ≠ d := by
        rintro d hd rfl
        simp only [List.mem_cons, List.not_mem_nil, or_false] at hd
        rcases hd with rfl | rfl | rfl | rfl | rfl | rfl | rfl | rfl <;> cases hc
      simp only [List.forall_mem_cons] at hne
      rw [List.cons_append, skipNoise]
      · simp [hne]
      · exact fun _ hc _ => hne.1 hc
      · exact fun _ hc _ => hne.2.1 hc

/-- A session's PREPARE is seen unless a comment before the name ends at a carriage return, or the name is
TRANSACTION, or TRANSACTION and a character beyond ASCII. -/
theorem prepare_seen (lead word gap name rest : List Char) (toUpper : String → String)
    (h : Prepares lead word gap name rest) (hgap : Noise (· = '\n') gap) (hname : afterWord "TRANSACTION".toList name = none) :
    createsPrepared (String.ofList (lead ++ (word ++ (gap ++ (name ++ rest))))) = true ∧
      (touchesPrepared toUpper (String.ofList (lead ++ (word ++ (gap ++ (name ++ rest))))) = true ↔
        Mentions toUpper (lead ++ (word ++ (gap ++ (name ++ rest))))) := by
  refine ⟨?_, touchesPrepared_iff toUpper⟩
  rw [createsPrepared, String.toList_ofList]
  refine createsFrom_append ?_
  rw [h.leads.boundary]
  have hend : ∀ c ∈ (gap ++ (name ++ rest)).head?, identByte c = false := by
    intro c hc
    cases hempty : gap with
    | nil =>
      have hquote := h.apart hempty
      cases name with
      | nil => cases hquote
      | cons d name =>
        cases hquote
        rw [hempty] at hc
        cases hc
        rfl
    | cons d gap' =>
      rw [hempty] at hc
      exact h.gaps.head (by rw [hempty]; exact hc)
  have hprepare := afterWord_append h.prepare hend
  have hskip := hgap.skip (n := (gap ++ (name ++ rest)).length) (by simp) h.named.solid
  cases word with
  | nil => cases h.prepare
  | cons c word =>
    rw [List.cons_append] at hprepare ⊢
    rw [createsFrom, hprepare]
    dsimp only
    rw [hskip, h.named.afterWord_none hname]
    rfl

/-- A prepared statement named transaction is not seen. -/
theorem prepare_transaction_unseen : Prepares [] "PREPARE".toList [' '] "transaction".toList " AS SELECT 1".toList ∧
      createsPrepared "PREPARE transaction AS SELECT 1" = false := by
  refine ⟨⟨.nil, rfl, .blank (by decide) .nil, ?_, nofun⟩, by decide +kernel⟩
  exact .plain rfl (List.all_eq_true.mp rfl) (by rintro _ ⟨⟩; rfl)

theorem prepare_quoted_seen : createsPrepared "PREPARE/* a */\"transaction\" AS SELECT 1" = true := by
  have hblock : Block 1 " a */".toList := by
    refine .inside (.inside (.inside (.closes .done) ?_ ?_) ?_ ?_) ?_ ?_ <;> decide
  have hgap : ∀ ends, Noise ends ("/* a */".toList) := fun ends => .block hblock .nil
  exact (prepare_seen [] "PREPARE".toList "/* a */".toList "\"transaction\"".toList " AS SELECT 1".toList id
    ⟨.nil, rfl, hgap _, .quoted, nofun⟩ (hgap _) (by decide)).1

end PgShard.Relay
