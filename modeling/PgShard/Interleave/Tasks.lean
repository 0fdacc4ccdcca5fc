import Mathlib

/-!
# Tasks that make one call after the other

Any number of tasks work on one store. A task is a tree of calls. What the world makes of a call is its
own choice; between two calls of a task the other tasks and the world go on, and a task may be stopped at
any of its calls. `Logic` judges each task against what the others may do to the store meanwhile.
-/

namespace PgShard.Interleave

variable {S C X E A B : Type} {R : C → Type}

inductive Task (C : Type) (R : C → Type) (A : Type) where
  | done (a : A)
  | call (c : C) (k : R c → Task C R A)

namespace Task

def bind : Task C R A → (A → Task C R B) → Task C R B
  | done a, f => f a
  | call c k, f => call c fun r => (k r).bind f

instance : Monad (Task C R) where
  pure := done
  bind := bind

/-- One call. -/
def ask (c : C) : Task C R (R c) := call c done

end Task

/-- `exec x i c s` is what comes of the call `c` of the task `i` on the store `s` when the world chooses
`x`: the reply and the store, or nothing. `world e n s` is what else happens; it may start a task, which
is then the task `n`. -/
structure Host (S C X E : Type) (R : C → Type) where
  exec : X → Nat → (c : C) → S → Option (R c × S)
  world : E → Nat → S → Option (Task C R Unit) × S

inductive Move (X E : Type) where
  | act (i : Nat) (x : X)
  | stop (i : Nat)
  | world (e : E)

structure Tasks (S C : Type) (R : C → Type) where
  store : S
  tasks : List (Task C R Unit) := []

namespace Tasks

variable (h : Host S C X E R)

/-- A move that cannot be made changes nothing. -/
def step (y : Tasks S C R) : Move X E → Tasks S C R
  | .act i x =>
    match y.tasks[i]? with
    | some (.call c k) =>
      match h.exec x i c y.store with
      | some (r, s) => ⟨s, y.tasks.set i (k r)⟩
      | none => y
    | _ => y
  | .stop i => ⟨y.store, y.tasks.set i (.done ())⟩
  | .world e => ⟨(h.world e y.tasks.length y.store).2, y.tasks ++ (h.world e y.tasks.length y.store).1.toList⟩

def run (y : Tasks S C R) (moves : List (Move X E)) : Tasks S C R := moves.foldl (step h) y

variable {h} {y : Tasks S C R} {moves : List (Move X E)}

lemma run_act {i : Nat} {x : X} {c : C} {k : R c → Task C R Unit} {r : R c} {s : S}
    (hi : y.tasks[i]? = some (.call c k)) (hx : h.exec x i c y.store = some (r, s)) :
    run h y (.act i x :: moves) = run h ⟨s, y.tasks.set i (k r)⟩ moves := by
  simp [run, step, hi, hx]

lemma run_world {e : E} {task : Option (Task C R Unit)} {s : S} (he : h.world e y.tasks.length y.store = (task, s)) :
    run h y (.world e :: moves) = run h ⟨s, y.tasks ++ task.toList⟩ moves := by
  simp [run, step, he]

end Tasks

/-- Which choices of the world are considered. -/
structure Bounds (S C X E : Type) where
  call : X → Nat → C → S → Prop
  world : E → S → Prop

namespace Bounds

/-- The world may do anything. -/
def all : Bounds S C X E := ⟨fun _ _ _ _ => True, fun _ _ => True⟩

def Allows (b : Bounds S C X E) (y : Tasks S C R) : Move X E → Prop
  | .act i x => ∀ c k, y.tasks[i]? = some (.call c k) → b.call x i c y.store
  | .stop _ => True
  | .world e => b.world e y.store

/-- Every choice along the run is one that is considered. -/
def Along (b : Bounds S C X E) (h : Host S C X E R) : Tasks S C R → List (Move X E) → Prop
  | _, [] => True
  | y, m :: ms => b.Allows y m ∧ b.Along h (y.step h m) ms

section

variable (b : Bounds S C X E) [∀ x i c s, Decidable (b.call x i c s)] [∀ e s, Decidable (b.world e s)]

instance (y : Tasks S C R) : (m : Move X E) → Decidable (b.Allows y m)
  | .stop _ => .isTrue trivial
  | .world e => inferInstanceAs (Decidable (b.world e y.store))
  | .act i x =>
    match hi : y.tasks[i]? with
    | none => .isTrue fun c k h => nomatch hi.symm.trans h
    | some (.done _) => .isTrue fun c k h => nomatch hi.symm.trans h
    | some (.call c k) => decidable_of_iff (b.call x i c y.store)
        ⟨fun h c' k' heq => by cases hi.symm.trans heq; exact h, fun h => h c k hi⟩

instance (h : Host S C X E R) : (y : Tasks S C R) → (moves : List (Move X E)) → Decidable (b.Along h y moves)
  | _, [] => .isTrue trivial
  | y, m :: ms =>
    have : Decidable (b.Along h (y.step h m) ms) := instDecidableAlong h (y.step h m) ms
    inferInstanceAs (Decidable (b.Allows y m ∧ b.Along h (y.step h m) ms))

end

lemma along_all (h : Host S C X E R) (y : Tasks S C R) (moves : List (Move X E)) :
    (all : Bounds S C X E).Along h y moves := by
  induction moves generalizing y with
  | nil => trivial
  | cons m moves ih =>
    refine ⟨?_, ih _⟩
    cases m with
    | act i x => exact fun _ _ _ => trivial
    | stop i => trivial
    | world e => trivial

end Bounds

/-- `inv` holds of the store at all times; `rely i s t` says that from `s` the others can bring the store
to `t` while the task `i` makes no call. -/
structure Logic (h : Host S C X E R) (b : Bounds S C X E) where
  inv : S → Prop
  rely : Nat → S → S → Prop
  rely_refl : ∀ i s, rely i s s
  rely_trans : ∀ {i s t u}, rely i s t → rely i t u → rely i s u

namespace Logic

variable {h : Host S C X E R} {b : Bounds S C X E} (L : Logic h b)

/-- Every call the task makes keeps the invariant and does to the others what they rely on, whatever it
hears, and its result is one that `Q` allows. -/
def Safe (i : Nat) (Q : A → S → Prop) : Task C R A → S → Prop
  | .done a, s => Q a s
  | .call c k, s => ∀ t, L.rely i s t → L.inv t → ∀ x r u, b.call x i c t → h.exec x i c t = some (r, u) →
      L.inv u ∧ (∀ j, j ≠ i → L.rely j t u) ∧ Safe i Q (k r) u

variable {L} {i : Nat}

lemma Safe.bind {Q : B → S → Prop} {f : A → Task C R B} {p : Task C R A} {s : S}
    (hp : L.Safe i (fun a t => L.Safe i Q (f a) t) p s) : L.Safe i Q (p >>= f) s := by
  induction p generalizing s with
  | done a => exact hp
  | call c k ih =>
    intro t ht hinv x r u hx hexec
    obtain ⟨hu, hothers, hk⟩ := hp t ht hinv x r u hx hexec
    exact ⟨hu, hothers, ih r hk⟩

lemma Safe.imp {Q Q' : A → S → Prop} {p : Task C R A} {s : S} (hp : L.Safe i Q p s)
    (himp : ∀ a t, Q a t → Q' a t) : L.Safe i Q' p s := by
  induction p generalizing s with
  | done a => exact himp a s hp
  | call c k ih =>
    intro t ht hinv x r u hx hexec
    obtain ⟨hu, hothers, hk⟩ := hp t ht hinv x r u hx hexec
    exact ⟨hu, hothers, ih r hk⟩

lemma Safe.mono {Q : A → S → Prop} {p : Task C R A} {s t : S} (hp : L.Safe i Q p s) (ht : L.rely i s t)
    (hQ : ∀ a, Q a s → Q a t) : L.Safe i Q p t := by
  cases p with
  | done a => exact hQ a hp
  | call c k => exact fun u hu => hp u (L.rely_trans ht hu)

variable (L)

/-- What a proof has to supply for the world: it keeps the invariant, does to the tasks what they rely
on, and the tasks it starts are safe. -/
def WorldSafe : Prop := ∀ e n s, L.inv s → b.world e s →
  L.inv (h.world e n s).2 ∧ (∀ j < n, L.rely j s (h.world e n s).2) ∧
    ∀ p, (h.world e n s).1 = some p → L.Safe n (fun _ _ => True) p (h.world e n s).2

def Holds (y : Tasks S C R) : Prop := L.inv y.store ∧ ∀ i p, y.tasks[i]? = some p → L.Safe i (fun _ _ => True) p y.store

variable {L}

lemma Holds.step {y : Tasks S C R} (hw : L.WorldSafe) (hy : L.Holds y) {m : Move X E}
    (hm : b.Allows y m) : L.Holds (y.step h m) := by
  obtain ⟨hinv, hsafe⟩ := hy
  cases m with
  | act i x =>
    have hstill : y.step h (.act i x) = y → L.Holds (y.step h (.act i x)) := by
      intro hsame
      rw [hsame]
      exact ⟨hinv, hsafe⟩
    cases hi : y.tasks[i]? with
    | none => exact hstill (by simp [Tasks.step, hi])
    | some p =>
      cases p with
      | done a => exact hstill (by simp [Tasks.step, hi])
      | call c k =>
        cases hexec : h.exec x i c y.store with
        | none => exact hstill (by simp [Tasks.step, hi, hexec])
        | some ru =>
          obtain ⟨r, u⟩ := ru
          obtain ⟨hu, hothers, hk⟩ := hsafe i _ hi y.store (L.rely_refl _ _) hinv x r u (hm c k hi) hexec
          have hstep : y.step h (.act i x) = ⟨u, y.tasks.set i (k r)⟩ := by simp [Tasks.step, hi, hexec]
          rw [hstep]
          refine ⟨hu, fun j p hp => ?_⟩
          by_cases hj : i = j
          · subst hj
            have hlt : i < y.tasks.length := (List.getElem?_eq_some_iff.mp hi).1
            rw [List.getElem?_set_self hlt] at hp
            exact Option.some.inj hp ▸ hk
          · rw [List.getElem?_set_ne hj] at hp
            exact (hsafe j p hp).mono (hothers j (Ne.symm hj)) fun _ _ => trivial
  | stop i =>
    refine ⟨hinv, fun j p hp => ?_⟩
    by_cases hj : i = j
    · subst hj
      change (y.tasks.set i (.done ()))[i]? = some p at hp
      obtain ⟨-, rfl⟩ : i < y.tasks.length ∧ Task.done () = p := by simpa [List.getElem?_set] using hp
      trivial
    · exact hsafe j p ((List.getElem?_set_ne hj).symm.trans hp)
  | world e =>
    obtain ⟨hu, hothers, hnew⟩ := hw e y.tasks.length y.store hinv hm
    refine ⟨hu, fun j p hp => ?_⟩
    rcases Nat.lt_or_ge j y.tasks.length with hlt | hge
    · have hp' : y.tasks[j]? = some p := (List.getElem?_append_left hlt).symm.trans hp
      exact (hsafe j p hp').mono (hothers j hlt) fun _ _ => trivial
    · have hp' : ((h.world e y.tasks.length y.store).1.toList)[j - y.tasks.length]? = some p :=
        (List.getElem?_append_right hge).symm.trans hp
      cases hstart : (h.world e y.tasks.length y.store).1 with
      | none => simp [hstart] at hp'
      | some q =>
        rw [hstart, Option.toList_some, List.getElem?_singleton] at hp'
        split at hp'
        · rename_i hzero
          obtain rfl : j = y.tasks.length := by omega
          exact hnew p (hstart.trans hp')
        · cases hp'

/-- Over a whole run. -/
lemma Holds.run {y : Tasks S C R} (hw : L.WorldSafe) (hy : L.Holds y) {moves : List (Move X E)}
    (hmoves : b.Along h y moves) : L.Holds (y.run h moves) := by
  induction moves generalizing y with
  | nil => exact hy
  | cons m moves ih => exact ih (hy.step hw hmoves.1) hmoves.2

end Logic

end PgShard.Interleave
