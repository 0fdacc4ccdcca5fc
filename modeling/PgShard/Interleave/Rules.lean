import PgShard.Interleave.Program

/-!
# An invariant for every interleaving

The main program is judged by its trace: the calls it made with what it heard
of them. A pass is judged by what it learned, which has to stay true whatever
the others do. `Discipline` collects what a proof has to supply for single
calls; `Discipline.sound` is the resulting statement about whole runs.
-/

namespace PgShard.Interleave

variable {S C R A A' B : Type}

abbrev Trace (C R : Type) := Set (C × Option R)

def heard (slots : List (Slot C R)) : Trace C R := {x | (x.1, some x.2) ∈ slots}

def pending (slots : List (Slot C R)) : Set C := {c | (c, none) ∈ slots}

/-- `inv P T s`: the store is `s`, the main program waits for the calls `P` and
has the trace `T`. `le s s'`: `s'` can come after `s`. `may c s`: what a pass has
to know before it makes the call `c`. `lic T cs`: the main program may make the
calls `cs` after the trace `T`. -/
structure Discipline (m : Machine S C R B) where
  inv : Set C → Trace C R → S → Prop
  le : S → S → Prop
  may : C → S → Prop
  lic : Trace C R → List C → Prop
  le_refl : ∀ s, le s s
  le_trans : ∀ {s t u}, le s t → le t u → le s u
  may_mono : ∀ {c s t}, le s t → may c s → may c t
  env_ok : ∀ {P T s s'}, inv P T s → m.env s s' → inv P T s' ∧ le s s'
  pass_ok : ∀ {P T c s s' r}, inv P T s → may c s → m.exec c s s' r → inv P T s' ∧ le s s'
  late_ok : ∀ {P T c s s' r}, inv P T s → (c, none) ∈ T → m.exec c s s' r → inv P T s' ∧ le s s'
  hear_ok : ∀ {P T c s s' r}, inv P T s → c ∈ P → m.exec c s s' r → inv (P \ {c}) (insert (c, some r) T) s' ∧ le s s'
  lose_ok : ∀ {P T c s}, inv P T s → c ∈ P → inv (P \ {c}) (insert (c, none) T) s
  issue_ok : ∀ {T cs s}, inv ∅ T s → lic T cs → inv {c | c ∈ cs} T s

namespace Discipline

variable {m : Machine S C R B} (D : Discipline m)

/-- Every round of the program is licensed by the trace before it, whatever is
heard, and it ends with a trace that `Q` allows its result. -/
def Follows (Q : A → Trace C R → Prop) : Prog C R A → Trace C R → Prop
  | .ret a, T => Q a T
  | .await cs k, T => cs.Nodup ∧ D.lic T cs ∧ ∀ os, os.length = cs.length → Follows Q (k os) (T ∪ {x | x ∈ cs.zip os})

variable {D}

variable {p : Prog C R A} {T : Trace C R} {s s' : S} {c : C} {o : Option R} {os : List (Option R)}
  {pre post slots : List (Slot C R)} {P : Set C}

lemma Follows.bind {Q : A' → Trace C R → Prop} {f : A → Prog C R A'}
    (h : D.Follows (fun a T => D.Follows Q (f a) T) p T) : D.Follows Q (p >>= f) T := by
  induction p generalizing T with
  | ret a => exact h
  | await cs k ih => exact ⟨h.1, h.2.1, fun os hl => ih os (h.2.2 os hl)⟩

lemma Follows.imp {Q Q' : A → Trace C R → Prop} (h : D.Follows Q p T)
    (himp : ∀ a T, Q a T → Q' a T) : D.Follows Q' p T := by
  induction p generalizing T with
  | ret a => exact himp a T h
  | await cs k ih => exact ⟨h.1, h.2.1, fun os hl => ih os (h.2.2 os hl)⟩

/-- A trace only grows. -/
lemma Follows.keep {Q : A → Trace C R → Prop} (h : D.Follows Q p T) :
    D.Follows (fun a T' => Q a T' ∧ T ⊆ T') p T := by
  suffices ∀ T₀ ⊆ T, D.Follows (fun a T' => Q a T' ∧ T₀ ⊆ T') p T from this T subset_rfl
  intro T₀ h₀
  induction p generalizing T with
  | ret a => exact ⟨h, h₀⟩
  | await cs k ih =>
    exact ⟨h.1, h.2.1, fun os hl => ih os (h.2.2 os hl) (h₀.trans Set.subset_union_left)⟩

variable (D)

/-- Some trace of the main program allows the store. -/
def Inv (s : S) : Prop := ∃ P T, D.inv P T s

/-- Between `s` and `s'` the call `c` was answered as `o` says. -/
def Answered (s s' : S) (c : C) (o : Option R) : Prop :=
  ∀ r, o = some r → ∃ s₀ s₁, D.le s s₀ ∧ D.Inv s₀ ∧ m.exec c s₀ s₁ r ∧ D.le s₁ s'

/-- Every call of the program is one a pass may make, given what the pass has
learned from the replies before it, and it ends in a store that `K` allows its
result. -/
def Safe (K : A → S → Prop) : Prog C R A → S → Prop
  | .ret a, s => K a s
  | .await cs k, s => (∀ c ∈ cs, D.may c s) ∧
      ∀ os s', D.le s s' → D.Inv s' → List.Forall₂ (D.Answered s s') cs os → Safe K (k os) s'

variable {D}

lemma Safe.bind {K : A' → S → Prop} {f : A → Prog C R A'}
    (h : D.Safe (fun a t => D.Safe K (f a) t) p s) : D.Safe K (p >>= f) s := by
  induction p generalizing s with
  | ret a => exact h
  | await cs k ih => exact ⟨h.1, fun os s' hle hi hos => ih os (h.2 os s' hle hi hos)⟩

lemma Safe.imp {K K' : A → S → Prop} (h : D.Safe K p s) (himp : ∀ a t, K a t → K' a t) : D.Safe K' p s := by
  induction p generalizing s with
  | ret a => exact himp a s h
  | await cs k ih => exact ⟨h.1, fun os s' hle hi hos => ih os (h.2 os s' hle hi hos)⟩

/-- What holds afterwards holds of a later store. -/
lemma Safe.keep {K : A → S → Prop} (h : D.Safe K p s) : D.Safe (fun a t => K a t ∧ D.le s t) p s := by
  suffices ∀ s₀, D.le s₀ s → D.Safe (fun a t => K a t ∧ D.le s₀ t) p s from this s (D.le_refl s)
  intro s₀ h₀
  induction p generalizing s with
  | ret a => exact ⟨h, h₀⟩
  | await cs k ih =>
    exact ⟨h.1, fun os s' hle hi hos => ih os (h.2 os s' hle hi hos) (D.le_trans h₀ hle)⟩

lemma Safe.call {K : Option R → S → Prop} (hmay : D.may c s)
    (h : ∀ o t, D.le s t → D.Inv t → D.Answered s t c o → K o t) : D.Safe K (Prog.call c) s := by
  refine ⟨by simpa using hmay, fun os t hle hi hos => ?_⟩
  cases hos with
  | cons ho hnil =>
    cases hnil
    exact h _ t hle hi ho

lemma Answered.mono {t t' : S} (h : D.Answered t s' c o) (hst : D.le s t) (hs' : D.le s' t') :
    D.Answered s t' c o := by
  intro r hr
  obtain ⟨s₀, s₁, h₀, hi, he, h₁⟩ := h r hr
  exact ⟨s₀, s₁, D.le_trans hst h₀, hi, he, D.le_trans h₁ hs'⟩

variable (D)

/-- The outcome `o` fits a slot: heard already, or answered between `s` and `s'`. -/
def Fits (s s' : S) (slot : Slot C R) (o : Option R) : Prop :=
  slot.2 = some o ∨ slot.2 = none ∧ D.Answered s s' slot.1 o

def PassOk (s : S) : Proc C R B → Prop
  | .done _ => True
  | .waiting slots k => (∀ c ∈ pending slots, D.may c s) ∧
      ∀ os s', D.le s s' → D.Inv s' → List.Forall₂ (D.Fits s s') slots os → D.Safe (fun _ _ => True) (k os) s'

def MainOk (Q : A → Trace C R → Prop) (P : Set C) (T : Trace C R) : Proc C R A → Prop
  | .done a => P = ∅ ∧ Q a T
  | .waiting slots k => P = pending slots ∧ (slots.map Prod.fst).Nodup ∧ ∃ T₀, T = T₀ ∪ heard slots ∧
        ∀ os : List (Option R), List.Forall₂ (fun slot o => slot.2 = some o ∨ slot.2 = none) slots os →
          D.Follows Q (k os) (T₀ ∪ {x | x ∈ (slots.map Prod.fst).zip os})

variable {D}

lemma PassOk.mono {t : S} {p : Proc C R B} (h : D.PassOk s p) (hst : D.le s t) : D.PassOk t p := by
  cases p with
  | done b => trivial
  | waiting slots k =>
    refine ⟨fun c hc => D.may_mono hst (h.1 c hc), fun os s' hs' hi hf => ?_⟩
    refine h.2 os s' (D.le_trans hst hs') hi (hf.imp fun slot o => ?_)
    rintro (ho | ⟨hn, ha⟩)
    · exact .inl ho
    · exact .inr ⟨hn, ha.mono hst (D.le_refl _)⟩

lemma PassOk.start {p : Prog C R B} (h : D.Safe (fun _ _ => True) p s) : D.PassOk s (Proc.start p) := by
  cases p with
  | ret b => trivial
  | await cs k =>
    refine ⟨fun c hc => h.1 c (by simpa [pending] using hc), fun os s' hs' hi hf => ?_⟩
    exact h.2 os s' hs' hi (by simpa [List.forall₂_map_left_iff, Discipline.Fits] using hf)

lemma forall₂_update {α β : Type} {r : α → β → Prop} {x y : α} {pre post : List α}
    {os : List β} (h : List.Forall₂ r (pre ++ y :: post) os)
    (hxy : ∀ o, r y o → r x o) : List.Forall₂ r (pre ++ x :: post) os := by
  induction pre generalizing os with
  | nil => cases h with | cons hy hr => exact .cons (hxy _ hy) hr
  | cons a pre ih => cases h with | cons ha hr => exact .cons ha (ih hr)

lemma PassOk.answer {k} (h : D.PassOk s (.waiting (pre ++ (c, none) :: post) k)) (hle : D.le s s')
    (ha : ∀ t, D.le s' t → D.Answered s t c o) : D.PassOk s' (.waiting (pre ++ (c, some o) :: post) k) := by
  constructor
  · intro d hd
    refine D.may_mono hle (h.1 d ?_)
    simp only [pending, Set.mem_ofPred_eq, List.mem_append, List.mem_cons, Prod.mk.injEq,
      reduceCtorEq, and_false, false_or] at hd ⊢
    exact hd.imp_right .inr
  · intro os t ht hi hf
    refine h.2 os t (D.le_trans hle ht) hi ?_
    have hf' : List.Forall₂ (D.Fits s t) (pre ++ (c, some o) :: post) os := by
      refine hf.imp fun slot o' => ?_
      rintro (ho | ⟨hn, hans⟩)
      · exact .inl ho
      · exact .inr ⟨hn, hans.mono hle (D.le_refl _)⟩
    refine forall₂_update hf' fun o' => ?_
    rintro (ho | ⟨hn, -⟩)
    · cases ho
      exact .inr ⟨rfl, ha t ht⟩
    · cases hn

lemma forall₂_of_map_snd (hall : slots.map Prod.snd = os.map some) :
    List.Forall₂ (fun slot o => slot.2 = some o) slots os := by
  rw [← List.forall₂_map_left_iff (f := Prod.snd) (R := fun a o => a = some o), hall, List.forall₂_map_left_iff]
  exact List.forall₂_same.mpr fun _ _ => rfl

lemma PassOk.resume {k} (h : D.PassOk s (.waiting slots k)) (hi : D.Inv s)
    (hall : slots.map Prod.snd = os.map some) : D.PassOk s (Proc.start (k os)) := by
  refine PassOk.start (h.2 os s (D.le_refl _) hi ?_)
  exact (forall₂_of_map_snd hall).imp fun slot o ho => .inl ho

lemma pending_fresh (cs : List C) : pending (cs.map (·, none) : List (Slot C R)) = {c | c ∈ cs} := by
  ext c
  simp [pending]

lemma heard_fresh (cs : List C) : heard (cs.map (·, none) : List (Slot C R)) = ∅ := by
  ext x
  simp [heard]

lemma heard_answer : heard (pre ++ (c, some o) :: post) = insert (c, o) (heard (pre ++ (c, none) :: post)) := by
  ext ⟨d, o'⟩
  simp only [heard, Set.mem_ofPred_eq, Set.mem_insert_iff, List.mem_append, List.mem_cons,
    Prod.mk.injEq, Option.some.injEq, reduceCtorEq, and_false, false_or]
  tauto

lemma pending_answer (hnd : ((pre ++ (c, none) :: post).map Prod.fst).Nodup) :
    pending (pre ++ (c, some o) :: post) = pending (pre ++ (c, none) :: post) \ {c} := by
  have hfresh : ∀ x ∈ pre ++ post, x.1 ≠ c := by
    intro x hx hxc
    have hc := (List.nodup_middle.mp (by simpa using hnd)).notMem
    exact hc (by simpa [hxc] using List.mem_map_of_mem (f := Prod.fst) hx)
  ext d
  simp only [pending, Set.mem_ofPred_eq, Set.mem_sdiff, Set.mem_singleton_iff, List.mem_append,
    List.mem_cons, Prod.mk.injEq, reduceCtorEq, and_false, false_or, and_true]
  constructor
  · intro hd
    exact ⟨hd.imp_right .inr, fun hdc => hfresh (d, none) (List.mem_append.mpr hd) hdc⟩
  · rintro ⟨hd | rfl | hd, hdc⟩
    · exact .inl hd
    · exact absurd rfl hdc
    · exact .inr hd

lemma heard_all (hall : slots.map Prod.snd = os.map some) :
    heard slots = {x | x ∈ (slots.map Prod.fst).zip os} ∧ pending slots = ∅ := by
  induction slots generalizing os with
  | nil => cases os <;> simp [heard, pending] at hall ⊢
  | cons slot slots ih =>
    obtain ⟨c, o'⟩ := slot
    cases os with
    | nil => simp at hall
    | cons o os =>
      simp only [List.map_cons, List.cons.injEq] at hall
      obtain ⟨rfl, hall⟩ := hall
      obtain ⟨hh, hp⟩ := ih hall
      have hh' : ∀ x : C × Option R, (x.1, some x.2) ∈ slots ↔ x ∈ (slots.map Prod.fst).zip os :=
        fun x => by simpa [heard] using Set.ext_iff.mp hh x
      have hp' : ∀ c, (c, none) ∉ slots := fun c => by simpa [pending] using Set.ext_iff.mp hp c
      constructor
      · ext ⟨d, o'⟩
        simp [heard, hh', Prod.ext_iff]
      · ext d
        simp [pending, hp']

variable {Q : A → Trace C R → Prop}

lemma MainOk.start (h : D.Follows Q p T) (hi : D.inv ∅ T s) : ∃ P, D.inv P T s ∧ D.MainOk Q P T (Proc.start p) := by
  cases p with
  | ret a => exact ⟨∅, hi, rfl, h⟩
  | await cs k =>
    obtain ⟨hnd, hlic, hk⟩ := h
    refine ⟨_, D.issue_ok hi hlic, (pending_fresh cs).symm, ?_, T, ?_, ?_⟩
    · simpa [Function.comp_def] using hnd
    · simp [heard_fresh]
    · intro os hos
      have hlen : os.length = cs.length := by simpa using hos.length_eq.symm
      simpa [Function.comp_def] using hk os hlen

lemma MainOk.answer {k} (o : Option R) (h : D.MainOk Q P T (.waiting (pre ++ (c, none) :: post) k)) :
    D.MainOk Q (P \ {c}) (insert (c, o) T) (.waiting (pre ++ (c, some o) :: post) k) := by
  obtain ⟨hP, hnd, T₀, hT, hk⟩ := h
  refine ⟨?_, by simpa using hnd, T₀, ?_, fun os hos => ?_⟩
  · rw [hP, pending_answer hnd]
  · rw [hT, heard_answer, Set.union_insert]
  · have := hk os (forall₂_update hos fun _ _ => .inr rfl)
    simpa using this

lemma MainOk.pending_mem {k} (h : D.MainOk Q P T (.waiting (pre ++ (c, none) :: post) k)) : c ∈ P := by
  rw [h.1]
  simp [pending]

lemma MainOk.resume {k} (h : D.MainOk Q P T (.waiting slots k))
    (hall : slots.map Prod.snd = os.map some) : P = ∅ ∧ D.Follows Q (k os) T := by
  obtain ⟨hP, -, T₀, hT, hk⟩ := h
  obtain ⟨hheard, hpend⟩ := heard_all hall
  refine ⟨hP.trans hpend, ?_⟩
  rw [hT, hheard]
  exact hk os ((forall₂_of_map_snd hall).imp fun slot o ho => .inl ho)

lemma MainOk.step {p p' : Proc C R A} {late : Option C} (h : D.MainOk Q P T p) (hi : D.inv P T s)
    (hs : ProcStep m s p s' p' late) : ∃ P' T', D.inv P' T' s' ∧ D.MainOk Q P' T' p' ∧ T ⊆ T' ∧ D.le s s' ∧
      ∀ c ∈ late.toList, (c, none) ∈ T' := by
  cases hs with
  | hear pre post c k he =>
    obtain ⟨hi', hle⟩ := D.hear_ok hi h.pending_mem he
    exact ⟨_, _, hi', h.answer _, Set.subset_insert _ _, hle, by simp⟩
  | lose pre post c k he =>
    -- The reply is lost first and the call lands afterwards: the same store.
    obtain ⟨hi', hle⟩ := D.late_ok (D.lose_ok hi h.pending_mem) (Set.mem_insert _ _) he
    exact ⟨_, _, hi', h.answer _, Set.subset_insert _ _, hle, by simp⟩
  | drop pre post c k | delay pre post c k =>
    exact ⟨_, _, D.lose_ok hi h.pending_mem, h.answer _, Set.subset_insert _ _, D.le_refl _, by simp⟩
  | resume slots os k hall =>
    obtain ⟨rfl, hk⟩ := h.resume hall
    obtain ⟨P', hi', hp'⟩ := MainOk.start hk hi
    exact ⟨P', T, hi', hp', subset_rfl, D.le_refl _, by simp⟩

lemma PassOk.pending_may {k} (h : D.PassOk s (.waiting (pre ++ (c, none) :: post) k)) : D.may c s :=
  h.1 c (by simp [pending])

lemma PassOk.step {p p' : Proc C R B} {late : Option C} (h : D.PassOk s p) (hi : D.inv P T s)
    (hs : ProcStep m s p s' p' late) : D.inv P T s' ∧ D.PassOk s' p' ∧ D.le s s' ∧ ∀ c ∈ late.toList, D.may c s' := by
  cases hs with
  | hear pre post c k he =>
    obtain ⟨hi', hle⟩ := D.pass_ok hi h.pending_may he
    refine ⟨hi', h.answer hle fun t ht r hr => ?_, hle, by simp⟩
    cases hr
    exact ⟨s, s', D.le_refl _, ⟨P, T, hi⟩, he, ht⟩
  | lose pre post c k he =>
    obtain ⟨hi', hle⟩ := D.pass_ok hi h.pending_may he
    exact ⟨hi', h.answer hle fun t ht r hr => (by cases hr), hle, by simp⟩
  | drop pre post c k =>
    exact ⟨hi, h.answer (D.le_refl _) fun t ht r hr => (by cases hr), D.le_refl _, by simp⟩
  | delay pre post c k =>
    exact ⟨hi, h.answer (D.le_refl _) fun t ht r hr => (by cases hr), D.le_refl _, by simpa using h.pending_may⟩
  | resume slots os k hall => exact ⟨hi, h.resume ⟨P, T, hi⟩ hall, D.le_refl _, by simp⟩

variable (D)

/-- What holds of a system whose main program keeps the discipline: a trace
accounts for the store, for where the main program is and for its late calls. -/
structure Governed (Q : A → Trace C R → Prop) (P : Set C) (T : Trace C R) (y : Sys S C R A B) : Prop where
  store : D.inv P T y.store
  main : ∀ p, y.main = some p → D.MainOk Q P T p
  mainLate : ∀ c ∈ y.mainLate, (c, none) ∈ T
  passes : ∀ p ∈ y.passes, D.PassOk y.store p
  passLate : ∀ c ∈ y.passLate, D.may c y.store

variable {D}

lemma mem_of_mem_dropped {α : Type} {pre post : List α} {x y : α} (h : y ∈ pre ++ post) : y ∈ pre ++ x :: post :=
  ((List.sublist_cons_self x post).append_left pre).subset h

lemma Governed.later {y : Sys S C R A B} (h : D.Governed Q P T y) (hi : D.inv P T s')
    (hle : D.le y.store s') : D.Governed Q P T { y with store := s' } where
  store := hi
  main := h.main
  mainLate := h.mainLate
  passes q hq := (h.passes q hq).mono hle
  passLate c hc := D.may_mono hle (h.passLate c hc)

lemma Governed.step (hpass : ∀ p, m.pass p → ∀ s, D.Inv s → D.Safe (fun _ _ => True) p s)
    {y z : Sys S C R A B} (h : D.Governed Q P T y) (hs : Step m y z) : ∃ P' T', D.Governed Q P' T' z := by
  cases hs with
  | main hm hp =>
    obtain ⟨P', T', hi, hm', hT, hle, hlate⟩ := (h.main _ hm).step h.store hp
    refine ⟨P', T', hi, fun q hq => (by cases hq; exact hm'), ?_,
      fun q hq => (h.passes q hq).mono hle, fun c hc => D.may_mono hle (h.passLate c hc)⟩
    intro c hc
    rcases List.mem_append.mp hc with hc | hc
    · exact hlate c hc
    · exact hT (h.mainLate c hc)
  | pass pre post hps hp =>
    obtain ⟨hi, hp', hle, hlate⟩ := (h.passes _ (by simp [hps])).step h.store hp
    have hlater := h.later hi hle
    refine ⟨P, T, { hlater with passes := fun q hq => ?_, passLate := fun c hc => ?_ }⟩
    · rcases List.mem_append.mp hq with hq | hq
      · exact hlater.passes q (by simp [hps, hq])
      · rcases List.mem_cons.mp hq with rfl | hq
        · exact hp'
        · exact hlater.passes q (by simp [hps, hq])
    · rcases List.mem_append.mp hc with hc | hc
      · exact hlate c hc
      · exact hlater.passLate c hc
  | mainLands pre post hl he =>
    obtain ⟨hi, hle⟩ := D.late_ok h.store (h.mainLate _ (by simp [hl])) he
    refine ⟨P, T, { h.later hi hle with mainLate := fun d hd => h.mainLate d ?_ }⟩
    rw [hl]
    exact mem_of_mem_dropped hd
  | passLands pre post hl he =>
    obtain ⟨hi, hle⟩ := D.pass_ok h.store (h.passLate _ (by simp [hl])) he
    refine ⟨P, T, { h.later hi hle with passLate := fun d hd => (h.later hi hle).passLate d ?_ }⟩
    rw [hl]
    exact mem_of_mem_dropped hd
  | env he =>
    obtain ⟨hi, hle⟩ := D.env_ok h.store he
    exact ⟨P, T, h.later hi hle⟩
  | start p hp =>
    refine ⟨P, T, { h with passes := fun q hq => ?_ }⟩
    rcases List.mem_cons.mp hq with rfl | hq
    · exact PassOk.start (hpass p hp _ ⟨P, T, h.store⟩)
    · exact h.passes q hq
  | crash => exact ⟨P, T, { h with main := nofun }⟩
  | crashPass pre post p hp =>
    refine ⟨P, T, { h with passes := fun q hq => h.passes q ?_ }⟩
    rw [hp]
    exact mem_of_mem_dropped hq

/-- Every system reachable from a main program that keeps the discipline, next
to passes that do, is governed by a trace of the main program. -/
lemma sound (hpass : ∀ p, m.pass p → ∀ s, D.Inv s → D.Safe (fun _ _ => True) p s)
    (hi : D.inv ∅ ∅ s) (hp : D.Follows Q p ∅) {y : Sys S C R A B} (hy : Reachable m s p y) :
    ∃ P T, D.Governed Q P T y := by
  induction hy with
  | initial =>
    obtain ⟨P, hi', hm⟩ := MainOk.start hp hi
    exact ⟨P, ∅, hi', fun q hq => (by cases hq; exact hm), by simp [Sys.initial],
      by simp [Sys.initial], by simp [Sys.initial]⟩
  | next _ hs ih =>
    obtain ⟨P, T, h⟩ := ih
    exact h.step hpass hs

end Discipline

end PgShard.Interleave
