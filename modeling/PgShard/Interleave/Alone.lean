import PgShard.Interleave.Tasks

/-!
# A task on a store of its own

Nobody else works on the store while the task runs. The world still chooses what comes of each call, and the
task may be cut off before any of them.
-/

namespace PgShard.Interleave.Task

variable {S C X A B : Type} {R : C → Type} (exec : X → (c : C) → S → R c × S)

/-- The run in which the world makes these choices; the task is cut off where they end. -/
def play : Task C R A → List X → S → Option A × S
  | .done a, _, s => (some a, s)
  | .call _ _, [], s => (none, s)
  | .call c k, x :: xs, s => play (k (exec x c s).1) xs (exec x c s).2

/-- `I` holds after every call, and `Q` of the result. -/
def Leads (I : S → Prop) (Q : A → S → Prop) : Task C R A → S → Prop
  | .done a, s => Q a s
  | .call c k, s => ∀ x, I (exec x c s).2 ∧ Leads I Q (k (exec x c s).1) (exec x c s).2

variable {exec} {I : S → Prop}

variable {p : Task C R A} {s : S}

lemma Leads.bind {Q : B → S → Prop} {f : A → Task C R B}
    (hp : p.Leads exec I (fun a t => (f a).Leads exec I Q t) s) : (p >>= f).Leads exec I Q s := by
  induction p generalizing s with
  | done a => exact hp
  | call c k ih =>
    intro x
    exact ⟨(hp x).1, ih _ (hp x).2⟩

lemma Leads.imp {Q Q' : A → S → Prop} (hp : p.Leads exec I Q s) (himp : ∀ a t, Q a t → Q' a t) :
    p.Leads exec I Q' s := by
  induction p generalizing s with
  | done a => exact himp a s hp
  | call c k ih =>
    intro x
    exact ⟨(hp x).1, ih _ (hp x).2⟩

/-- One call and what follows it. -/
lemma Leads.ask {Q : B → S → Prop} {c : C} {f : R c → Task C R B}
    (hc : ∀ x, I (exec x c s).2 ∧ (f (exec x c s).1).Leads exec I Q (exec x c s).2) :
    (Task.ask c >>= f).Leads exec I Q s := hc

lemma Leads.play {Q : A → S → Prop} (hp : p.Leads exec I Q s) (hs : I s) (xs : List X) :
    ((p.play exec xs s).1 = none → I (p.play exec xs s).2) ∧
      ∀ a, (p.play exec xs s).1 = some a → Q a (p.play exec xs s).2 := by
  induction p generalizing s xs with
  | done a => exact ⟨nofun, fun b hb => Option.some.inj hb ▸ hp⟩
  | call c k ih =>
    cases xs with
    | nil => exact ⟨fun _ => hs, nofun⟩
    | cons x xs => exact ih _ (hp x).2 (hp x).1 xs

end PgShard.Interleave.Task
