import PgShard.Pooler.Pool

/-!
# What an event does to the pool

Most events let a thread go on, with the wait queues changed at most; the others take or give a token,
move a backend or start a thread. Every invariant of the pool is proved over these moves.
-/

namespace PgShard.Pooler

section

variable (p : Pool) (i : Nat) (key : PoolKey)

/-- Everything but the wait queues is the same. -/
structure SameBooks (p q : Pool) : Prop where
  threads : q.threads = p.threads := by rfl
  started : q.started = p.started := by rfl
  idle : q.idle = p.idle := by rfl
  total : q.total = p.total := by rfl
  sem : q.sem = p.sem := by rfl
  dialled : q.dialled = p.dialled := by rfl
  closed : q.closed = p.closed := by rfl

lemma SameBooks.trans {p q r : Pool} (h : SameBooks p q) (h' : SameBooks q r) : SameBooks p r :=
  ⟨h'.threads.trans h.threads, h'.started.trans h.started, h'.idle.trans h.idle,
    h'.total.trans h.total, h'.sem.trans h.sem, h'.dialled.trans h.dialled, h'.closed.trans h.closed⟩

lemma wakeOneSlot_books : SameBooks p (p.wakeOneSlot key) := by
  unfold Pool.wakeOneSlot
  split <;> exact {}

lemma wakeOneBudget_books : SameBooks p p.wakeOneBudget := by
  unfold Pool.wakeOneBudget
  split <;> exact {}

lemma wakeFor_books : SameBooks p (p.wakeFor key) := (wakeOneSlot_books p key).trans (wakeOneBudget_books _)

lemma wakes_books (keys : List PoolKey) : SameBooks p (keys.foldl Pool.wakeFor p) := by
  induction keys generalizing p with
  | nil => exact {}
  | cons key keys ih => exact (wakeFor_books p key).trans (ih _)

lemma leaveSlot_books : SameBooks p (p.leaveSlot i key) := by
  unfold Pool.leaveSlot
  split
  · exact {}
  · split
    · exact { wakeOneSlot_books (p.setSignal i false) key with }
    · exact {}

lemma leaveBudget_books : SameBooks p (p.leaveBudget i) := by
  unfold Pool.leaveBudget
  split
  · exact {}
  · split
    · exact { wakeOneBudget_books (p.setSignal i false) with }
    · exact {}

end

lemma lastIdle_mem {p : Pool} {key : PoolKey} {b : Backend} (h : p.lastIdle key = some b) :
    b ∈ p.idle ∧ b.key = key := by
  have hmem := List.mem_of_getLast? h
  simpa using List.mem_filter.mp hmem

lemma oldest_mem {bs : List Backend} {b : Backend} (h : Pool.oldest bs b = true) : b ∈ bs := by
  simp only [Pool.oldest, decide_eq_true_eq] at h
  exact h.1

/-- Every waiter is woken and nothing is idle. -/
def Pool.shut (p : Pool) : Pool := { p with
  closed := true
  signal := fun i => p.signal i || i ∈ p.budget || i ∈ p.waiters (p.threads i).key
  budget := []
  waiters := fun _ => []
  idle := [] }

/-- A thread goes on from a stage to another; nothing but the wait queues changes. -/
inductive Turn (cfg : PoolConfig) (p : Pool) (i : Nat) : Stage → Pool → Stage → Prop
  | noneIdle (h : p.lastIdle (p.threads i).key = none) : Turn cfg p i (.pop .first) p .slot
  | noneForWaiter (h : p.lastIdle (p.threads i).key = none) : Turn cfg p i (.pop .waiting) p .evictRole
  | hand {b : Backend} (h : b.credDigest = cfg.credDigest (p.threads i).keys) :
      Turn cfg p i (.check .first b) p (.holding b)
  | reuse {b : Backend} (h : b.credDigest = cfg.credDigest (p.threads i).keys) :
      Turn cfg p i (.check .waiting b) p (.leave (.reused b))
  | reject (origin : Origin) {b : Backend} :
      Turn cfg p i (.check origin b) p (.freeTotal b.key.role (.pop origin))
  | noSlot : Turn cfg p i .slot p .park
  | parkClosed (h : p.closed = true) :
      Turn cfg p i .park (p.parkSlot i (p.threads i).key) (.leave .closed)
  | park : Turn cfg p i .park (p.parkSlot i (p.threads i).key) (.pop .waiting)
  | noneOfRole : Turn cfg p i .evictRole p .select
  | woken (h : p.signal i = true) : Turn cfg p i .select (p.setSignal i false) (.leave .woken)
  | cancel : Turn cfg p i .select p (.leave .cancelled)
  | leave (outcome : SlotOutcome) :
      Turn cfg p i (.leave outcome) (p.leaveSlot i (p.threads i).key) <|
        match outcome with
        | .reused b => .holding b
        | .evicted => .park
        | .got => .total false
        | .woken => .park
        | .closed => .done
        | .cancelled => .done
  | noTotal (woken : Bool) : Turn cfg p i (.total woken) p .parkTotal
  | parkTotal : Turn cfg p i .parkTotal (p.parkBudget i) .evictAny
  | noneAtAll (h : p.idle = []) : Turn cfg p i .evictAny p .selectTotal
  | wokenTotal (h : p.signal i = true) : Turn cfg p i .selectTotal (p.setSignal i false) .wokenTotal
  | cancelTotal : Turn cfg p i .selectTotal p (.leaveTotal .cancelled)
  | foundClosed (h : p.closed = true) : Turn cfg p i .wokenTotal p (.leaveTotal .closed)
  | foundOpen : Turn cfg p i .wokenTotal p (.leaveTotal .woken)
  | leaveTotal (outcome : TotalOutcome) :
      Turn cfg p i (.leaveTotal outcome) (p.leaveBudget i) <|
        match outcome with
        | .evicted => .total false
        | .got => .dialCheck
        | .woken => .total true
        | .closed => .dropSem
        | .cancelled => .dropSem
  | dialClosed : Turn cfg p i .dialCheck p (.freeTotal (p.threads i).key.role .done)
  | dial : Turn cfg p i .dialCheck p .dial
  | dialFailed : Turn cfg p i .dial p (.freeTotal (p.threads i).key.role .done)
  | wakes (keys : List PoolKey) : Turn cfg p i (.wakes keys) (keys.foldl Pool.wakeFor p) .done
  | discard {b : Backend} : Turn cfg p i (.holding b) p (.freeTotal b.key.role .done)
  | forget {b : Backend} : Turn cfg p i (.abandoned b) p .done

lemma Turn.books {cfg : PoolConfig} {p p₁ : Pool} {i : Nat} {s t : Stage}
    (h : Turn cfg p i s p₁ t) : SameBooks p p₁ := by
  cases h with
  | leave => exact leaveSlot_books p i _
  | leaveTotal => exact leaveBudget_books p i
  | wakes keys => exact wakes_books p keys
  | _ => exact {}

inductive Moves (cfg : PoolConfig) (p : Pool) (e : Event) : Pool → Prop
  | same : Moves cfg p e p
  | turn {i : Nat} {s t : Stage} {p₁ : Pool} (hi : (p.threads i).stage = s) (h : Turn cfg p i s p₁ t) :
      Moves cfg p e (p₁.goto i t)
  | pop {i : Nat} {origin : Origin} {b : Backend} (hi : (p.threads i).stage = .pop origin)
      (h : p.lastIdle (p.threads i).key = some b) : Moves cfg p e ((p.dropIdle b).goto i (.check origin b))
  | evictRole {i : Nat} {b : Backend} (hi : (p.threads i).stage = .evictRole) (h : b ∈ p.idle) :
      Moves cfg p e ((p.dropIdle b).goto i (.freeTotal b.key.role (.leave .evicted)))
  | evictAny {i : Nat} {b : Backend} (hi : (p.threads i).stage = .evictAny) (h : b ∈ p.idle) :
      Moves cfg p e ((p.dropIdle b).goto i (.freeTotal b.key.role (.leaveTotal .evicted)))
  | takeSlot {i : Nat} {s t : Stage} (hi : (p.threads i).stage = s)
      (hst : s = .slot ∧ t = .total false ∨ s = .select ∧ t = .leave .got)
      (h : p.sem (p.threads i).key.role < cfg.limit (p.threads i).key.role) :
      Moves cfg p e ({ p with
        sem := Function.update p.sem (p.threads i).key.role (p.sem (p.threads i).key.role + 1) }.goto i t)
  | takeTotal {i : Nat} {s t : Stage} (hi : (p.threads i).stage = s)
      (hst : e = .run i ∧ (∃ woken, s = .total woken) ∧ t = .dialCheck ∨
        s = .selectTotal ∧ t = .leaveTotal .got) (h : p.total < cfg.maxBackends) :
      Moves cfg p e ({ p with total := p.total + 1 }.goto i t)
  | dropSem {i : Nat} (hi : (p.threads i).stage = .dropSem) (h : 0 < p.sem (p.threads i).key.role) :
      Moves cfg p e ({ p with
        sem := Function.update p.sem (p.threads i).key.role (p.sem (p.threads i).key.role - 1) }.goto i .done)
  | freeTotal {i : Nat} {role : String} {next : Stage} (hi : (p.threads i).stage = .freeTotal role next)
      (h : 0 < p.total) : Moves cfg p e ({ p with total := p.total - 1 }.goto i (.freeSem role next))
  | freeSem {i : Nat} {role : String} {next : Stage} (hi : (p.threads i).stage = .freeSem role next)
      (h : 0 < p.sem role) :
      Moves cfg p e ({ p with sem := Function.update p.sem role (p.sem role - 1) }.goto i next)
  | dialled {i : Nat} (now : Nat) (hi : (p.threads i).stage = .dial) :
      Moves cfg p e ({ p with dialled := p.dialled + 1 }.goto i (.holding
        ⟨p.dialled, (p.threads i).key, (p.threads i).keys, cfg.credDigest (p.threads i).keys, now⟩))
  | release {i : Nat} {b : Backend} (now : Nat) (hi : (p.threads i).stage = .holding b)
      (h : p.closed = false) : Moves cfg p e
        (({ p with idle := p.idle ++ [{ b with lastUsed := now }] }.wakeFor b.key).goto i .done)
  | abandon {i : Nat} {b : Backend} (hi : (p.threads i).stage = .holding b) :
      Moves cfg p e ((p.goto i (.abandoned b)).spawn { stage := .freeTotal b.key.role .done })
  | acquire {key : PoolKey} {keys : ScramKeys} (he : e = .acquire key keys) : Moves cfg p e
      (p.spawn { key := key, keys := keys, stage := if p.closed then .done else .pop .first })
  | reap (dead : Backend → Bool) : Moves cfg p e
      ({ p with idle := p.idle.filter fun b => !dead b }.spawn
        { stage := Pool.freeing (p.idle.filter dead) (.wakes ((p.idle.filter dead).map Backend.key)) })
  | close : Moves cfg p e (p.shut.spawn { stage := Pool.freeing p.idle .done })

lemma advance_moves (cfg : PoolConfig) (p : Pool) (i : Nat) : Moves cfg p (.run i) (p.advance cfg i) := by
  cases hi : (p.threads i).stage <;> simp only [Pool.advance, hi]
  case pop origin =>
    cases hlast : p.lastIdle (p.threads i).key with
    | some b => exact .pop hi hlast
    | none =>
      cases origin with
      | first => exact .turn hi (.noneIdle hlast)
      | waiting => exact .turn hi (.noneForWaiter hlast)
  case check origin b =>
    split
    · rename_i hdigest
      cases origin with
      | first => exact .turn hi (.hand hdigest)
      | waiting => exact .turn hi (.reuse hdigest)
    · exact .turn hi (.reject origin)
  case slot =>
    split
    · exact .takeSlot hi (.inl ⟨rfl, rfl⟩) ‹_›
    · exact .turn hi .noSlot
  case park =>
    split
    · exact .turn hi (.parkClosed ‹_›)
    · exact .turn hi .park
  case evictRole =>
    split
    · exact .turn hi .noneOfRole
    · exact .same
  case leave outcome => exact .turn hi (.leave outcome)
  case total woken =>
    split
    · exact .takeTotal hi (.inl ⟨rfl, ⟨woken, rfl⟩, rfl⟩) ‹_›
    · exact .turn hi (.noTotal woken)
  case parkTotal => exact .turn hi .parkTotal
  case evictAny =>
    split
    · exact .turn hi (.noneAtAll ‹_›)
    · exact .same
  case wokenTotal =>
    split
    · exact .turn hi (.foundClosed ‹_›)
    · exact .turn hi .foundOpen
  case leaveTotal outcome => exact .turn hi (.leaveTotal outcome)
  case dialCheck =>
    split
    · exact .turn hi .dialClosed
    · exact .turn hi .dial
  case dropSem =>
    split
    · exact .dropSem hi ‹_›
    · exact .same
  case freeTotal role next =>
    split
    · exact .freeTotal hi ‹_›
    · exact .same
  case freeSem role next =>
    split
    · exact .freeSem hi ‹_›
    · exact .same
  case wakes keys => exact .turn hi (.wakes keys)
  case abandoned b => exact .turn hi .forget
  all_goals exact .same

lemma step_moves (cfg : PoolConfig) (p : Pool) (e : Event) : Moves cfg p e (p.step cfg e) := by
  cases e <;> simp only [Pool.step]
  case acquire key keys => exact .acquire rfl
  case run i => exact advance_moves cfg p i
  case expired i =>
    split
    · exact .turn ‹_› (.reject _)
    · exact .same
  case evict i b =>
    split
    · split
      · exact .evictRole ‹_› (List.mem_filter.mp (oldest_mem ‹_›)).1
      · exact .same
    · split
      · exact .evictAny ‹_› (oldest_mem ‹_›)
      · exact .same
    · exact .same
  case slotFree i =>
    split
    · split
      · exact .takeSlot ‹_› (.inr ⟨rfl, rfl⟩) ‹_›
      · exact .same
    · split
      · exact .takeTotal ‹_› (.inr ⟨rfl, rfl⟩) ‹_›
      · exact .same
    · exact .same
  case woken i =>
    split
    · split
      · exact .turn ‹_› (.woken ‹_›)
      · exact .turn ‹_› (.wokenTotal ‹_›)
      · exact .same
    · exact .same
  case cancel i =>
    split
    · exact .turn ‹_› .cancel
    · exact .turn ‹_› .cancelTotal
    · exact .same
  case dialled i now =>
    split
    · exact .dialled now ‹_›
    · exact .same
  case dialFailed i =>
    split
    · exact .turn ‹_› .dialFailed
    · exact .same
  case release i fit now =>
    split
    · split
      · rename_i hkeep
        exact .release now ‹_› hkeep.2
      · exact .turn ‹_› .discard
    · exact .same
  case discard i =>
    split
    · exact .turn ‹_› .discard
    · exact .same
  case abandon i =>
    split
    · exact .abandon ‹_›
    · exact .same
  case reap dead =>
    split
    · exact .same
    · exact .reap dead
  case close => exact .close

end PgShard.Pooler
