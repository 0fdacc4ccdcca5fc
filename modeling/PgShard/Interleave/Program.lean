import Mathlib

/-!
# Programs that call a shared store over a lossy network

A program is a tree of rounds. Each round makes its calls concurrently and goes
on with what it heard. A call takes effect at most once; its caller hears the
reply, or nothing. A caller that hears nothing does not know whether the call
took effect, was dropped, or is still on its way and takes effect later.
-/

namespace PgShard.Interleave

variable {S C R A B : Type}

inductive Prog (C R A : Type) where
  | ret (a : A)
  | await (cs : List C) (k : List (Option R) → Prog C R A)

namespace Prog

def bind : Prog C R A → (A → Prog C R B) → Prog C R B
  | ret a, f => f a
  | await cs k, f => await cs (fun os => (k os).bind f)

instance : Monad (Prog C R) where
  pure := ret
  bind := bind

/-- One call, made alone. -/
def call (c : C) : Prog C R (Option R) := await [c] (fun os => ret (os.head?.join))

/-- One call for each of `cs`, made concurrently. -/
def each (cs : List C) : Prog C R (List (Option R)) := await cs ret

end Prog

/-- A call of the running round, with what was heard of it so far. -/
abbrev Slot (C R : Type) := C × Option (Option R)

inductive Proc (C R A : Type) where
  | done (a : A)
  | waiting (slots : List (Slot C R)) (k : List (Option R) → Prog C R A)

def Proc.start : Prog C R A → Proc C R A
  | .ret a => .done a
  | .await cs k => .waiting (cs.map (·, none)) k

/-- What a store does: the effect and the reply of a call, what else may happen
to it, and which programs may be started against it at any time. -/
structure Machine (S C R B : Type) where
  exec : C → S → S → R → Prop
  env : S → S → Prop
  pass : Prog C R B → Prop

/-- One step of a process from store `s` to store `s'`; `late` is the call it
stopped waiting for while the call was still on its way. -/
inductive ProcStep (m : Machine S C R B) : S → Proc C R A → S → Proc C R A → Option C → Prop
  | hear {s s' : S} {r : R} (pre post : List (Slot C R)) (c : C) (k) :
      m.exec c s s' r →
      ProcStep m s (.waiting (pre ++ (c, none) :: post) k) s' (.waiting (pre ++ (c, some (some r)) :: post) k) none
  | lose {s s' : S} {r : R} (pre post : List (Slot C R)) (c : C) (k) :
      m.exec c s s' r →
      ProcStep m s (.waiting (pre ++ (c, none) :: post) k) s' (.waiting (pre ++ (c, some none) :: post) k) none
  | drop {s : S} (pre post : List (Slot C R)) (c : C) (k) :
      ProcStep m s (.waiting (pre ++ (c, none) :: post) k) s (.waiting (pre ++ (c, some none) :: post) k) none
  | delay {s : S} (pre post : List (Slot C R)) (c : C) (k) :
      ProcStep m s (.waiting (pre ++ (c, none) :: post) k) s (.waiting (pre ++ (c, some none) :: post) k) (some c)
  | resume {s : S} (slots : List (Slot C R)) (os : List (Option R)) (k) :
      slots.map Prod.snd = os.map some →
      ProcStep m s (.waiting slots k) s (Proc.start (k os)) none

/-- One main program, any number of passes, and the calls whose callers no
longer wait for them. `main` is `none` once its process has crashed. -/
structure Sys (S C R A B : Type) where
  store : S
  main : Option (Proc C R A)
  mainLate : List C
  passes : List (Proc C R B)
  passLate : List C

inductive Step (m : Machine S C R B) : Sys S C R A B → Sys S C R A B → Prop
  | main {y s' p p' late} : y.main = some p → ProcStep m y.store p s' p' late →
      Step m y { y with store := s', main := some p', mainLate := late.toList ++ y.mainLate }
  | pass {y s' p p' late} (pre post) : y.passes = pre ++ p :: post → ProcStep m y.store p s' p' late →
      Step m y { y with store := s', passes := pre ++ p' :: post, passLate := late.toList ++ y.passLate }
  | mainLands {y c s' r} (pre post) : y.mainLate = pre ++ c :: post → m.exec c y.store s' r →
      Step m y { y with store := s', mainLate := pre ++ post }
  | passLands {y c s' r} (pre post) : y.passLate = pre ++ c :: post → m.exec c y.store s' r →
      Step m y { y with store := s', passLate := pre ++ post }
  | env {y s'} : m.env y.store s' → Step m y { y with store := s' }
  | start {y} (p) : m.pass p → Step m y { y with passes := Proc.start p :: y.passes }
  | crash {y} : Step m y { y with main := none }
  | crashPass {y} (pre post p) : y.passes = pre ++ p :: post → Step m y { y with passes := pre ++ post }

/-- `p` started as the main program on store `s`, before any pass. -/
def Sys.initial (s : S) (p : Prog C R A) : Sys S C R A B := ⟨s, some (Proc.start p), [], [], []⟩

inductive Reachable (m : Machine S C R B) (s : S) (p : Prog C R A) : Sys S C R A B → Prop
  | initial : Reachable m s p (Sys.initial s p)
  | next {y z} : Reachable m s p y → Step m y z → Reachable m s p z

variable {m : Machine S C R B}

/-- Nothing that happens after the main program has ended depends on it: as far
as the rest of the system goes it may as well not have crashed since. -/
lemma Reachable.after_done {s : S} {p : Prog C R A} {y z : Sys S C R A B} {a : A}
    (hy : Reachable m s p y) (hdone : y.main = some (.done a)) (hz : Relation.ReflTransGen (Step m) y z) :
    Reachable m s p { z with main := some (.done a) } := by
  suffices Reachable m s p { z with main := some (.done a) } ∧ ∀ q, z.main = some q → q = .done a from this.1
  induction hz with
  | refl => exact ⟨hdone ▸ hy, fun q hq => by simpa [hdone] using hq.symm⟩
  | tail _ hstep ih =>
    obtain ⟨hr, hmain⟩ := ih
    cases hstep with
    | main hm hp => cases hmain _ hm; cases hp
    | pass pre post hps hp => exact ⟨hr.next (.pass pre post hps hp), hmain⟩
    | mainLands pre post hl he => exact ⟨hr.next (.mainLands pre post hl he), hmain⟩
    | passLands pre post hl he => exact ⟨hr.next (.passLands pre post hl he), hmain⟩
    | env he => exact ⟨hr.next (.env he), hmain⟩
    | start q hq => exact ⟨hr.next (.start q hq), hmain⟩
    | crash => exact ⟨hr, fun q hq => by cases hq⟩
    | crashPass pre post q hq => exact ⟨hr.next (.crashPass pre post q hq), hmain⟩

/-! ### Runs in which every call is answered -/

inductive Answers (m : Machine S C R B) : List C → List R → S → S → Prop
  | nil {s} : Answers m [] [] s s
  | cons {c cs r rs s s' s''} : m.exec c s s' r → Answers m cs rs s' s'' → Answers m (c :: cs) (r :: rs) s s''

inductive Runs (m : Machine S C R B) : Prog C R A → S → A → S → Prop
  | ret {a s} : Runs m (.ret a) s a s
  | await {cs k rs s s' a s''} : Answers m cs rs s s' → Runs m (k (rs.map some)) s' a s'' → Runs m (.await cs k) s a s''

lemma Answers.length_eq {cs : List C} {rs : List R} {s s' : S} (h : Answers m cs rs s s') :
    cs.length = rs.length := by
  induction h with
  | nil => rfl
  | cons _ _ ih => simp [ih]

lemma Answers.reachable {s₀ : S} {p : Prog C R A} {cs : List C} {rs : List R} {s s' : S}
    (h : Answers m cs rs s s') (pre : List (Slot C R)) {k} {late : List C} {passes passLate}
    (hy : Reachable m s₀ p ⟨s, some (.waiting (pre ++ cs.map (·, none)) k), late, passes, passLate⟩) : Reachable m s₀ p
      ⟨s', some (.waiting (pre ++ cs.zip (rs.map (some ∘ some))) k), late, passes, passLate⟩ := by
  induction h generalizing pre with
  | nil => exact hy
  | @cons c cs r rs _ _ _ he _ ih =>
    have hstep := hy.next (.main rfl (.hear pre _ c k he))
    have := ih (pre ++ [(c, some (some r))]) (by simpa using hstep)
    simpa using this

lemma Runs.reachable {s₀ : S} {p₀ p : Prog C R A} {s s' : S} {a : A} (h : Runs m p s a s')
    {late : List C} {passes passLate} (hy : Reachable m s₀ p₀ ⟨s, some (Proc.start p), late, passes, passLate⟩) :
    Reachable m s₀ p₀ ⟨s', some (.done a), late, passes, passLate⟩ := by
  induction h with
  | ret => exact hy
  | @await cs k rs _ _ _ _ hans _ ih =>
    have hheard := hans.reachable [] hy
    refine ih (hheard.next (.main rfl (.resume _ (rs.map some) k ?_)))
    rw [List.nil_append, List.map_snd_zip (by simp [hans.length_eq]), List.map_map]

/-- A run in which every call is answered is one of the interleavings. -/
lemma Runs.initial {p : Prog C R A} {s s' : S} {a : A} (h : Runs m p s a s') :
    Reachable m s p (⟨s', some (.done a), [], [], []⟩ : Sys S C R A B) :=
  h.reachable .initial

end PgShard.Interleave
