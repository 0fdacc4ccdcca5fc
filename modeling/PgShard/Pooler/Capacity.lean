import PgShard.Pooler.Moves
import PgShard.Waiting.Room

/-!
# The budgets of the pool

Every token of the two semaphores belongs to a backend or to a thread on its way to one or back from
one.
-/

namespace PgShard.Pooler

open Key Finset

/-- The backends a thread has: held, being dialled, or closed and not given back yet. -/
@[simp] def Stage.backends : Stage → Nat
  | .check _ _ | .leave (.reused _) | .leaveTotal .got | .dialCheck | .dial | .holding _ => 1
  | .freeTotal _ next => 1 + next.backends
  | .freeSem _ next => next.backends
  | _ => 0

def ofRole (role other : String) : Nat := if other = role then 1 else 0

/-- The slots of a role that a thread of the role `own` has: for a backend, or to dial one. -/
@[simp] def Stage.slots (own role : String) : Stage → Nat
  | .check _ b | .leave (.reused b) | .holding b => ofRole role b.key.role
  | .leave .got | .total _ | .parkTotal | .evictAny | .selectTotal | .wokenTotal | .leaveTotal _
  | .dialCheck | .dial | .dropSem => ofRole role own
  | .freeTotal of next | .freeSem of next => ofRole role of + next.slots own role
  | _ => 0

def Thread.slots (role : String) (t : Thread) : Nat := t.stage.slots t.key.role role

/-- The idle backends of a role. -/
def Pool.idleOf (p : Pool) (role : String) : Nat := (p.idle.map fun b => ofRole role b.key.role).sum

/-- The semaphore of the shard, and that of each role. -/
abbrev Budget := Option String

def Budget.one (budget k : Budget) : Nat := if budget = k then 1 else 0

def PoolConfig.max (cfg : PoolConfig) : Budget → Int
  | none => cfg.maxBackends
  | some role => cfg.limit role

def Pool.tokens (p : Pool) : Budget → Nat
  | none => p.total
  | some role => p.sem role

def Backend.tokens (b : Backend) : Budget → Nat
  | none => 1
  | some role => ofRole role b.key.role

@[simp] def Stage.tokens (own : String) (s : Stage) : Budget → Nat
  | none => s.backends
  | some role => s.slots own role

@[simp] def Thread.tokens (t : Thread) (k : Budget) : Nat := t.stage.tokens t.key.role k

def Pool.idleTokens (p : Pool) (k : Budget) : Nat := (p.idle.map fun b => b.tokens k).sum

structure Accounts (cfg : PoolConfig) (p : Pool) : Prop where
  rest : ∀ i, p.started ≤ i → (p.threads i).stage = .done
  books : ∀ k, p.tokens k = p.idleTokens k + ∑ i ∈ range p.started, (p.threads i).tokens k
  max : ∀ k, (p.tokens k : Int) ≤ cfg.max k

lemma sum_update (f : Thread → Nat) (threads : Nat → Thread) {i n : Nat} (hi : i < n) (t : Thread) :
    ∑ j ∈ range n, f (Function.update threads i t j) + f (threads i) =
      ∑ j ∈ range n, f (threads j) + f t := by
  have hsum := Waiting.sum_change (f := fun j => f (Function.update threads i t j))
    (g := fun j => f (threads j)) hi fun j hj => by rw [Function.update_of_ne hj]
  simpa only [Function.update_self] using hsum

lemma sum_spawn (f : Thread → Nat) (threads : Nat → Thread) (n : Nat) (t : Thread) :
    ∑ j ∈ range (n + 1), f (Function.update threads n t j) = ∑ j ∈ range n, f (threads j) + f t := by
  rw [sum_range_succ, Function.update_self]
  congr 1
  refine sum_congr rfl fun j hj => ?_
  rw [Function.update_of_ne (mem_range.mp hj).ne]

section

variable (p : Pool) (role : String) (k : Budget)

lemma takeTotal_tokens : ({ p with total := p.total + 1 } : Pool).tokens k = p.tokens k + Budget.one none k := by
  cases k <;> simp [Pool.tokens, Budget.one]

lemma giveTotal_tokens (hpos : 0 < p.total) :
    ({ p with total := p.total - 1 } : Pool).tokens k + Budget.one none k = p.tokens k := by
  cases k <;> simp [Pool.tokens, Budget.one]
  omega

lemma takeSlot_tokens : ({ p with sem := Function.update p.sem role (p.sem role + 1) } : Pool).tokens k =
      p.tokens k + Budget.one (some role) k := by
  rcases k with _ | r
  · simp [Pool.tokens, Budget.one]
  · by_cases hr : role = r
    · simp [Pool.tokens, Budget.one, hr]
    · simp [Pool.tokens, Budget.one, hr, Function.update_of_ne (Ne.symm hr)]

lemma giveSlot_tokens (hpos : 0 < p.sem role) :
    ({ p with sem := Function.update p.sem role (p.sem role - 1) } : Pool).tokens k +
      Budget.one (some role) k = p.tokens k := by
  rcases k with _ | r
  · simp [Pool.tokens, Budget.one]
  · by_cases hr : role = r
    · subst hr
      simp [Pool.tokens, Budget.one]
      omega
    · simp [Pool.tokens, Budget.one, hr, Function.update_of_ne (Ne.symm hr)]

end

lemma freeing_tokens (bs : List Backend) (next : Stage) (own : String) (k : Budget) :
    (Pool.freeing bs next).tokens own k = (bs.map fun b => b.tokens k).sum + next.tokens own k := by
  induction bs with
  | nil => simp [Pool.freeing]
  | cons b bs ih =>
    have hcons : (Pool.freeing (b :: bs) next).tokens own k =
        b.tokens k + (Pool.freeing bs next).tokens own k := by
      cases k <;> rfl
    rw [hcons, ih, List.map_cons, List.sum_cons, Nat.add_assoc]

lemma SameBooks.tokens {p p₁ : Pool} (hb : SameBooks p p₁) : p₁.tokens = p.tokens := by
  funext k
  cases k with
  | none => exact hb.total
  | some role => exact congrFun hb.sem role

namespace Accounts

variable {cfg : PoolConfig} {p p₁ : Pool} {i : Nat} {s : Stage} {budget : Budget}

section

variable (h : Accounts cfg p)

include h

lemma started (hi : (p.threads i).stage ≠ .done) : i < p.started := by
  by_contra hno
  exact hi (h.rest i (by omega))

/-- One thread goes on, and the tokens and the idle backends change by what it gains and loses. -/
lemma goto (hthreads : p₁.threads = p.threads) (hstarted : p₁.started = p.started) (hi : (p.threads i).stage ≠ .done)
    (hbooks : ∀ k, p₁.tokens k + p.idleTokens k + (p.threads i).tokens k =
      p.tokens k + p₁.idleTokens k + s.tokens (p.threads i).key.role k)
    (hmax : ∀ k, (p₁.tokens k : Int) ≤ cfg.max k) : Accounts cfg (p₁.goto i s) where
  rest j hj := by
    have hj : p.started ≤ j := by rw [← hstarted]; exact hj
    have hne : j ≠ i := fun heq => hi (heq ▸ h.rest j hj)
    simp only [Pool.goto, hthreads, Function.update_of_ne hne]
    exact h.rest j hj
  books k := by
    have hsum := sum_update (Thread.tokens · k) p.threads (h.started hi) ((p.threads i).goto s)
    have hold := h.books k
    have hk := hbooks k
    have hnew : ((p.threads i).goto s).tokens k = s.tokens (p.threads i).key.role k := rfl
    change p₁.tokens k = p₁.idleTokens k + _
    simp only [Pool.goto, hthreads, hstarted]
    omega
  max := hmax

/-- A thread goes on with the tokens it has. -/
lemma turn (hb : SameBooks p { p₁ with dialled := p.dialled }) (hi : (p.threads i).stage ≠ .done)
    (htokens : ∀ k, s.tokens (p.threads i).key.role k = (p.threads i).tokens k) :
    Accounts cfg (p₁.goto i s) := by
  have hsame : p₁.tokens = p.tokens := hb.tokens
  refine h.goto hb.threads hb.started hi (fun k => ?_) (hsame ▸ h.max)
  have hidle : p₁.idleTokens k = p.idleTokens k := by
    rw [Pool.idleTokens, show p₁.idle = p.idle from hb.idle, Pool.idleTokens]
  rw [hsame, hidle, htokens]

/-- A thread takes an idle backend. -/
lemma takeIdle {b : Backend} (hb : b ∈ p.idle) (hi : (p.threads i).stage ≠ .done)
    (htokens : ∀ k, s.tokens (p.threads i).key.role k = (p.threads i).tokens k + b.tokens k) :
    Accounts cfg ((p.dropIdle b).goto i s) := by
  refine h.goto rfl rfl hi (fun k => ?_) h.max
  have hsum := ((List.perm_cons_erase hb).map fun b => b.tokens k).sum_eq
  have hk := htokens k
  simp only [List.map_cons, List.sum_cons] at hsum
  change p.tokens k + p.idleTokens k + _ = p.tokens k + ((p.idle.erase b).map fun b => b.tokens k).sum + _
  rw [Pool.idleTokens]
  omega

/-- A token goes into a semaphore. -/
lemma take (hthreads : p₁.threads = p.threads) (hstarted : p₁.started = p.started)
    (hidle : p₁.idle = p.idle) (hp : ∀ k, p₁.tokens k = p.tokens k + budget.one k)
    (hroom : (p.tokens budget : Int) < cfg.max budget) (hi : (p.threads i).stage ≠ .done)
    (htokens : ∀ k, s.tokens (p.threads i).key.role k = (p.threads i).tokens k + budget.one k) :
    Accounts cfg (p₁.goto i s) := by
  refine h.goto hthreads hstarted hi (fun k => ?_) (fun k => ?_)
  · rw [hp, htokens, Pool.idleTokens, Pool.idleTokens, hidle]
    omega
  · rw [hp, Budget.one]
    split
    · rename_i hk
      subst hk
      push_cast
      omega
    · exact h.max k

/-- A token is taken back. -/
lemma give (hthreads : p₁.threads = p.threads) (hstarted : p₁.started = p.started)
    (hidle : p₁.idle = p.idle) (hp : ∀ k, p₁.tokens k + budget.one k = p.tokens k) (hi : (p.threads i).stage ≠ .done)
    (htokens : ∀ k, (p.threads i).tokens k = s.tokens (p.threads i).key.role k + budget.one k) :
    Accounts cfg (p₁.goto i s) := by
  refine h.goto hthreads hstarted hi (fun k => ?_) (fun k => ?_)
  · rw [← hp, htokens, Pool.idleTokens, Pool.idleTokens, hidle]
    omega
  · have hold := h.max k
    have hk := hp k
    omega

/-- A new thread, which may take over idle backends. -/
lemma spawn {t : Thread} (hthreads : p₁.threads = p.threads)
    (hstarted : p₁.started = p.started) (hsame : p₁.tokens = p.tokens)
    (htokens : ∀ k, p.idleTokens k = p₁.idleTokens k + t.tokens k) : Accounts cfg (p₁.spawn t) where
  rest j hj := by
    simp only [Pool.spawn] at hj ⊢
    rw [Function.update_of_ne (by omega), hthreads]
    exact h.rest j (by omega)
  books k := by
    have hold := h.books k
    have hk := htokens k
    change p₁.tokens k = p₁.idleTokens k + _
    simp only [Pool.spawn]
    rw [sum_spawn (Thread.tokens · k), hsame, hthreads, hstarted]
    omega
  max := hsame ▸ h.max

/-- The books after a backend came back to the idle list. -/
lemma keepIdle {b : Backend} (now : Nat) (hi : (p.threads i).stage = .holding b) :
    Accounts cfg (({ p with idle := p.idle ++ [{ b with lastUsed := now }] }.wakeFor b.key).goto i .done) := by
  have hb := wakeFor_books { p with idle := p.idle ++ [{ b with lastUsed := now }] } b.key
  refine h.goto hb.threads hb.started (by simp [hi]) (fun k => ?_) (hb.tokens ▸ h.max)
  rw [hb.tokens, Pool.idleTokens, Pool.idleTokens, hb.idle]
  cases k <;> simp [Pool.tokens, Backend.tokens, hi] <;> omega

/-- A new thread gives back what the backend of another took. -/
lemma abandon {b : Backend} (hi : (p.threads i).stage = .holding b) :
    Accounts cfg ((p.goto i (.abandoned b)).spawn { stage := .freeTotal b.key.role .done }) where
  rest j hj := by
    have hstarted := h.started (i := i) (by simp [hi])
    simp only [Pool.spawn, Pool.goto] at hj ⊢
    rw [Function.update_of_ne (by omega), Function.update_of_ne (by omega)]
    exact h.rest j (by omega)
  books k := by
    have hold := h.books k
    have hsum := sum_update (Thread.tokens · k) p.threads (h.started (i := i) (by simp [hi]))
      ((p.threads i).goto (.abandoned b))
    change p.tokens k = p.idleTokens k + _
    simp only [Pool.spawn, Pool.goto]
    rw [sum_spawn (Thread.tokens · k)]
    have hhad : (p.threads i).tokens k = b.tokens k := by
      cases k <;> simp [Backend.tokens, hi]
    have hleft : ((p.threads i).goto (.abandoned b)).tokens k = 0 := by cases k <;> rfl
    have hnew : Thread.tokens { stage := .freeTotal b.key.role .done } k = b.tokens k := by
      cases k <;> simp [Backend.tokens]
    omega
  max := h.max

lemma moves {e : Event} (hm : Moves cfg p e p₁) : Accounts cfg p₁ := by
  cases hm with
  | same => exact h
  | turn hi ht =>
    have hb := ht.books
    cases ht with
    | leave outcome | leaveTotal outcome =>
      refine h.turn { hb with dialled := rfl } (by simp [hi]) ?_
      rintro (- | role) <;> cases outcome <;> simp [hi]
    | _ =>
      refine h.turn { hb with dialled := rfl } (by simp [hi]) ?_
      rintro (- | role) <;> simp [hi]
  | pop hi hlast =>
    refine h.takeIdle (lastIdle_mem hlast).1 (by simp [hi]) ?_
    rintro (- | role) <;> simp [Backend.tokens, hi]
  | evictRole hi hb | evictAny hi hb =>
    refine h.takeIdle hb (by simp [hi]) ?_
    rintro (- | role) <;> simp [Backend.tokens, hi, Nat.add_comm]
  | takeSlot hi hst hroom =>
    rcases hst with ⟨rfl, rfl⟩ | ⟨rfl, rfl⟩ <;>
      refine h.take rfl rfl rfl (takeSlot_tokens p _) hroom (by simp [hi]) ?_
    all_goals rintro (- | role) <;> simp [Budget.one, ofRole, hi]
  | takeTotal hi hst hroom =>
    rcases hst with ⟨-, ⟨woken, rfl⟩, rfl⟩ | ⟨rfl, rfl⟩ <;>
      refine h.take rfl rfl rfl (takeTotal_tokens p) hroom (by simp [hi]) ?_
    all_goals rintro (- | role) <;> simp [Budget.one, hi]
  | dropSem hi hpos | freeSem hi hpos =>
    refine h.give rfl rfl rfl (giveSlot_tokens p _ · hpos) (by simp [hi]) ?_
    rintro (- | role) <;> simp [Budget.one, ofRole, hi, Nat.add_comm]
  | freeTotal hi hpos =>
    refine h.give rfl rfl rfl (giveTotal_tokens p · hpos) (by simp [hi]) ?_
    rintro (- | role) <;> simp [Budget.one, hi, Nat.add_comm]
  | dialled now hi =>
    refine h.turn {} (by simp [hi]) ?_
    rintro (- | role) <;> simp [hi]
  | release now hi => exact h.keepIdle now hi
  | abandon hi => exact h.abandon hi
  | acquire =>
    refine h.spawn rfl rfl rfl ?_
    rintro (- | role) <;> cases p.closed <;> simp [Pool.idleTokens]
  | reap dead =>
    refine h.spawn rfl rfl rfl fun k => ?_
    have hsum := ((List.filter_append_perm dead p.idle).map fun b => b.tokens k).sum_eq
    simp only [Thread.tokens, freeing_tokens, Pool.idleTokens, List.map_append, List.sum_append] at hsum ⊢
    cases k <;> simp only [Stage.tokens, Stage.backends, Stage.slots] <;> omega
  | close =>
    refine h.spawn rfl rfl rfl fun k => ?_
    rw [Thread.tokens, freeing_tokens]
    cases k <;> simp [Pool.idleTokens, Pool.shut, Stage.tokens]

lemma step (e : Event) : Accounts cfg (p.step cfg e) := h.moves (step_moves cfg p e)

end

end Accounts

end PgShard.Pooler
