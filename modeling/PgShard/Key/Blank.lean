import PgShard.Key.KeyType

/-!
# Characters and trailing blanks

How cutting a text to a number of characters goes with the blanks at its end, which do not
count in a `character(n)`.
-/

namespace PgShard.Key

lemma trimRight_cons (c : UInt8) (b : Bytes) :
    trimRight (c :: b) = if trimRight b = [] then (if c = 32 then [] else [c]) else c :: trimRight b := by
  unfold trimRight
  rw [List.reverse_cons, List.dropWhile_append]
  by_cases h : List.dropWhile (· == 32) b.reverse = []
  · by_cases hc : c = 32 <;> simp [h, hc]
  · simp [h]

/-- Two texts are one `character(n)` when they differ in the blanks at their end. -/
def SameTrimmed (a b : Bytes) : Prop := trimRight a = trimRight b

lemma SameTrimmed.cons {a b : Bytes} (c : UInt8) (h : SameTrimmed a b) : SameTrimmed (c :: a) (c :: b) := by
  unfold SameTrimmed at h ⊢
  rw [trimRight_cons, trimRight_cons, h]

lemma sameTrimmed_blanks (k : Nat) : SameTrimmed (List.replicate k 32) [] := by
  induction k with
  | zero => rfl
  | succ k ih =>
    rw [List.replicate_succ]
    unfold SameTrimmed at ih ⊢
    rw [trimRight_cons, ih]
    rfl

lemma sameTrimmed_append (b : Bytes) (k : Nat) : SameTrimmed (b ++ List.replicate k 32) b := by
  induction b with
  | nil => exact sameTrimmed_blanks k
  | cons c b ih => exact ih.cons c

lemma eq_trimRight_append (b : Bytes) : ∃ k, b = trimRight b ++ List.replicate k 32 := by
  induction b with
  | nil => exact ⟨0, rfl⟩
  | cons c b ih =>
    obtain ⟨k, hk⟩ := ih
    rw [trimRight_cons]
    split
    · next hnil =>
      rw [hnil, List.nil_append] at hk
      split
      · next hc =>
        refine ⟨k + 1, ?_⟩
        rw [hc, List.nil_append, List.replicate_succ, ← hk]
      · exact ⟨k, by rw [← hk]; rfl⟩
    · exact ⟨k, by rw [List.cons_append, ← hk]⟩

lemma sameTrimmed_trimRight (b : Bytes) : SameTrimmed (trimRight b) b := by
  obtain ⟨k, hk⟩ := eq_trimRight_append b
  conv => rhs; rw [hk]
  exact (sameTrimmed_append (trimRight b) k).symm

lemma takeRunes_cons (n : Nat) (c : UInt8) (b : Bytes) :
    takeRunes n (c :: b) = if isContinuation c then c :: takeRunes n b
      else match n with
        | 0 => []
        | n + 1 => c :: takeRunes n b := by
  cases n <;> rfl

lemma takeRunes_of_le {n : Nat} {b : Bytes} (h : runeCount b ≤ n) : takeRunes n b = b := by
  induction b generalizing n with
  | nil => cases n <;> rfl
  | cons c b ih =>
    rw [takeRunes_cons]
    by_cases hc : isContinuation c = true
    · have : runeCount b ≤ n := by simpa [runeCount, hc] using h
      simp [hc, ih this]
    · have hlen : runeCount (c :: b) = runeCount b + 1 := by simp [runeCount, hc]
      cases n with
      | zero => omega
      | succ n =>
        have := ih (n := n) (by omega)
        simp [hc, this]

lemma takeRunes_blanks (n k : Nat) : ∃ j, takeRunes n (List.replicate k 32) = List.replicate j 32 := by
  induction k generalizing n with
  | zero => exact ⟨0, by cases n <;> rfl⟩
  | succ k ih =>
    have hblank : isContinuation 32 = false := by decide
    rw [List.replicate_succ, takeRunes_cons, hblank]
    cases n with
    | zero => exact ⟨0, rfl⟩
    | succ n =>
      obtain ⟨j, hj⟩ := ih n
      exact ⟨j + 1, by simp [hj, List.replicate_succ]⟩

/-- Blanks at the end stay blanks at the end when a text is cut. -/
lemma takeRunes_append_blanks (n k : Nat) (b : Bytes) :
    SameTrimmed (takeRunes n (b ++ List.replicate k 32)) (takeRunes n b) := by
  induction b generalizing n with
  | nil =>
    obtain ⟨j, hj⟩ := takeRunes_blanks n k
    rw [List.nil_append, hj]
    cases n <;> exact sameTrimmed_blanks j
  | cons c b ih =>
    rw [List.cons_append, takeRunes_cons, takeRunes_cons]
    split
    · exact (ih n).cons c
    · cases n with
      | zero => rfl
      | succ n => exact (ih n).cons c

lemma SameTrimmed.takeRunes {a b : Bytes} (n : Nat) (h : SameTrimmed a b) :
    SameTrimmed (takeRunes n a) (takeRunes n b) := by
  obtain ⟨j, hj⟩ := eq_trimRight_append a
  obtain ⟨k, hk⟩ := eq_trimRight_append b
  rw [hj, hk, h]
  exact (takeRunes_append_blanks n j _).trans (takeRunes_append_blanks n k _).symm

/-- A text cut to a length differs from one that is padded to it in blanks only. -/
lemma sameTrimmed_cut (n : Nat) (b : Bytes) :
    SameTrimmed (if runeCount b > n then takeRunes n b else b) (takeRunes n b) := by
  split
  · rfl
  · next h => rw [takeRunes_of_le (by omega)]; rfl

lemma takeRunes_append_dropRunes (n : Nat) (b : Bytes) : takeRunes n b ++ dropRunes n b = b := by
  unfold dropRunes
  induction b generalizing n with
  | nil => cases n <;> rfl
  | cons c b ih =>
    rw [takeRunes_cons]
    split
    · simpa using ih n
    · cases n with
      | zero => rfl
      | succ n => simpa using ih n

/-- Blanks may be cut off. -/
lemma sameTrimmed_takeRunes {n : Nat} {b : Bytes} (h : (dropRunes n b).all (· == 32) = true) :
    SameTrimmed (takeRunes n b) b := by
  have hblanks : dropRunes n b = List.replicate (dropRunes n b).length 32 := by
    apply List.eq_replicate_of_mem
    intro c hc
    simpa using List.all_eq_true.mp h c hc
  conv => rhs; rw [← takeRunes_append_dropRunes n b, hblanks]
  exact (sameTrimmed_append _ _).symm

lemma runeCount_takeRunes (n : Nat) (b : Bytes) : runeCount (takeRunes n b) = min n (runeCount b) := by
  induction b generalizing n with
  | nil => cases n <;> simp [takeRunes, runeCount]
  | cons c b ih =>
    rw [takeRunes_cons]
    by_cases hc : isContinuation c = true
    · simpa [hc, runeCount] using ih n
    · cases n with
      | zero => simp [hc, runeCount]
      | succ n =>
        have := ih n
        simp only [runeCount, hc] at this ⊢
        simp [hc, this]

lemma runeCount_append_blanks (k : Nat) (b : Bytes) : runeCount (b ++ List.replicate k 32) = runeCount b + k := by
  have hblank : isContinuation 32 = false := by decide
  simp [runeCount, List.filter_append, hblank]

end PgShard.Key
