import PgShard.Key.Literal

/-!
# The pool of backends

The pooler's backends are shared within a budget for the shard and one for each role. Every goroutine
that uses the pool is a thread here; one event lets one thread go through one section under the pool's
lock or one operation on a channel.
-/

namespace PgShard.Pooler

open Key

/-- Backends are interchangeable within one database and role. -/
structure PoolKey where
  database : String
  role : String
  deriving DecidableEq, Repr

/-- The keys of a SCRAM-SHA-256 exchange. -/
structure ScramKeys where
  clientKey : Bytes
  serverKey : Bytes
  size : clientKey.length = 32
  deriving DecidableEq

structure PoolConfig where
  maxBackends : Int
  maxPerRole : Int
  superuserRoles : List String := []
  maxPerSuperuser : Int := 0
  /-- The hash of the standard library. -/
  sha256 : Bytes → Bytes

def defaultMaxPerSuperuser : Int := 7

namespace PoolConfig

def withDefaults (c : PoolConfig) : PoolConfig :=
  let c := if c.maxBackends ≤ 0 then { c with maxBackends := 100 } else c
  let c := if c.maxPerRole ≤ 0 ∨ c.maxBackends < c.maxPerRole then { c with maxPerRole := c.maxBackends } else c
  let c := if c.maxPerSuperuser ≤ 0 then { c with maxPerSuperuser := defaultMaxPerSuperuser } else c
  if c.maxPerRole < c.maxPerSuperuser then { c with maxPerSuperuser := c.maxPerRole } else c

/-- The capacity of a role's semaphore. -/
def limit (c : PoolConfig) (role : String) : Int :=
  if role ≠ "" ∧ role ∈ c.superuserRoles then c.maxPerSuperuser else c.maxPerRole

def credDigest (c : PoolConfig) (keys : ScramKeys) : Bytes := c.sha256 (keys.clientKey ++ [0] ++ keys.serverKey)

end PoolConfig

/-- A connection to PostgreSQL. `keys` are those it was authenticated with, which the source does not
keep. -/
structure Backend where
  id : Nat
  key : PoolKey
  keys : ScramKeys
  credDigest : Bytes
  lastUsed : Nat
  deriving DecidableEq

/-- Where `popIdle` is called: at the start of an acquire, or in the loop of `awaitSlot`. -/
inductive Origin
  | first
  | waiting
  deriving DecidableEq

/-- How a turn of `awaitSlot` ended before it left the queue. -/
inductive SlotOutcome
  | reused (b : Backend)
  | evicted
  | got
  | woken
  | closed
  | cancelled
  deriving DecidableEq

/-- How a turn of `acquireTotal` ended before it left the queue. -/
inductive TotalOutcome
  | evicted
  | got
  | woken
  | closed
  | cancelled
  deriving DecidableEq

/-- What a thread does next. -/
inductive Stage
  /-- `popIdle`: take the last idle backend -/
  | pop (origin : Origin)
  /-- `popIdle`: look at the backend it took -/
  | check (origin : Origin) (b : Backend)
  /-- `Acquire`: take a slot of the role if there is one -/
  | slot
  /-- `awaitSlot`: queue -/
  | park
  /-- `awaitSlot`: evict a backend of the role in another database -/
  | evictRole
  /-- `awaitSlot`: wait -/
  | select
  /-- `awaitSlot`: leave the queue -/
  | leave (outcome : SlotOutcome)
  /-- `acquireTotal`: take a slot if there is one; `woken` says whether it was woken to come here -/
  | total (woken : Bool)
  | parkTotal
  | evictAny
  | selectTotal
  /-- `acquireTotal`: woken, look whether the pool is closed -/
  | wokenTotal
  | leaveTotal (outcome : TotalOutcome)
  /-- `Acquire`: look whether the pool is closed -/
  | dialCheck
  | dial
  /-- `Acquire`: give the role's slot back after `acquireTotal` failed -/
  | dropSem
  /-- `free`, then go on -/
  | freeTotal (role : String) (next : Stage)
  | freeSem (role : String) (next : Stage)
  /-- `reapOnce`: wake the waiters for what was closed -/
  | wakes (keys : List PoolKey)
  | holding (b : Backend)
  /-- The backend was abandoned under its holder. -/
  | abandoned (b : Backend)
  | done
  deriving DecidableEq

/-- A thread, with what its `Acquire` was called with. -/
structure Thread where
  key : PoolKey := ⟨"", ""⟩
  keys : ScramKeys := ⟨List.replicate 32 0, [], rfl⟩
  stage : Stage := .done

def Thread.goto (t : Thread) (stage : Stage) : Thread := { t with stage := stage }

@[simp] lemma Thread.goto_key (t : Thread) (s : Stage) : (t.goto s).key = t.key := rfl

@[simp] lemma Thread.goto_keys (t : Thread) (s : Stage) : (t.goto s).keys = t.keys := rfl

@[simp] lemma Thread.goto_stage (t : Thread) (s : Stage) : (t.goto s).stage = s := rfl

/-- The idle lists of all role pools are one list, in the order the backends were returned. -/
structure Pool where
  total : Nat := 0
  sem : String → Nat := fun _ => 0
  idle : List Backend := []
  waiters : PoolKey → List Nat := fun _ => []
  budget : List Nat := []
  /-- A wake-up is in the channel of the thread's waiter. -/
  signal : Nat → Bool := fun _ => false
  closed : Bool := false
  threads : Nat → Thread := fun _ => {}
  /-- The threads started so far are those below it. -/
  started : Nat := 0
  /-- The backends dialled so far are those below it. -/
  dialled : Nat := 0

namespace Pool

def goto (p : Pool) (i : Nat) (stage : Stage) : Pool :=
  { p with threads := Function.update p.threads i ((p.threads i).goto stage) }

/-- A new thread. -/
def spawn (p : Pool) (t : Thread) : Pool :=
  { p with threads := Function.update p.threads p.started t, started := p.started + 1 }

def setSignal (p : Pool) (i : Nat) (b : Bool) : Pool := { p with signal := Function.update p.signal i b }

def setWaiters (p : Pool) (key : PoolKey) (q : List Nat) : Pool := { p with waiters := Function.update p.waiters key q }

def parkSlot (p : Pool) (i : Nat) (key : PoolKey) : Pool := (p.setSignal i false).setWaiters key (p.waiters key ++ [i])

def parkBudget (p : Pool) (i : Nat) : Pool := { p.setSignal i false with budget := p.budget ++ [i] }

def wakeOneSlot (p : Pool) (key : PoolKey) : Pool :=
  match p.waiters key with
  | [] => p
  | i :: rest => (p.setSignal i true).setWaiters key rest

def wakeOneBudget (p : Pool) : Pool :=
  match p.budget with
  | [] => p
  | i :: rest => { p.setSignal i true with budget := rest }

def leaveSlot (p : Pool) (i : Nat) (key : PoolKey) : Pool :=
  if i ∈ p.waiters key then p.setWaiters key ((p.waiters key).erase i)
  else if p.signal i then (p.setSignal i false).wakeOneSlot key
  else p

def leaveBudget (p : Pool) (i : Nat) : Pool :=
  if i ∈ p.budget then { p with budget := p.budget.erase i }
  else if p.signal i then (p.setSignal i false).wakeOneBudget
  else p

def wakeFor (p : Pool) (key : PoolKey) : Pool := (p.wakeOneSlot key).wakeOneBudget

/-- The last idle backend of a role pool. -/
def lastIdle (p : Pool) (key : PoolKey) : Option Backend := (p.idle.filter (·.key = key)).getLast?

def dropIdle (p : Pool) (b : Backend) : Pool := { p with idle := p.idle.erase b }

/-- What `evictIdleOfRole` chooses from. -/
def othersOfRole (p : Pool) (key : PoolKey) : List Backend := p.idle.filter fun b => b.key.role = key.role ∧ b.key ≠ key

/-- The backend is one of the least recently used. -/
def oldest (bs : List Backend) (b : Backend) : Bool := b ∈ bs ∧ ∀ c ∈ bs, b.lastUsed ≤ c.lastUsed

/-- `free` for every backend, then go on. -/
def freeing (bs : List Backend) (next : Stage) : Stage := bs.foldr (fun b s => .freeTotal b.key.role s) next

end Pool

inductive Event
  | acquire (key : PoolKey) (keys : ScramKeys)
  /-- The thread goes on. -/
  | run (i : Nat)
  /-- The backend the thread popped has expired. -/
  | expired (i : Nat)
  /-- The thread evicts this backend. -/
  | evict (i : Nat) (b : Backend)
  /-- The thread's select takes a slot, the wake-up, or the end of its context. -/
  | slotFree (i : Nat)
  | woken (i : Nat)
  | cancel (i : Nat)
  | dialled (i : Nat) (now : Nat)
  | dialFailed (i : Nat)
  /-- The holder releases its backend, last used at `now`; `fit` says that it is not broken, has nothing
  buffered, is idle and has not expired. -/
  | release (i : Nat) (fit : Bool) (now : Nat)
  | discard (i : Nat)
  | abandon (i : Nat)
  | reap (dead : Backend → Bool)
  | close

namespace Pool

variable (cfg : PoolConfig)

/-- The next step of a thread that has no choice. -/
def advance (p : Pool) (i : Nat) : Pool :=
  let t := p.threads i
  match t.stage with
  | .pop origin =>
    match p.lastIdle t.key with
    | some b => (p.dropIdle b).goto i (.check origin b)
    | none =>
      match origin with
      | .first => p.goto i .slot
      | .waiting => p.goto i .evictRole
  | .check origin b =>
    if b.credDigest = cfg.credDigest t.keys then
      match origin with
      | .first => p.goto i (.holding b)
      | .waiting => p.goto i (.leave (.reused b))
    else p.goto i (.freeTotal b.key.role (.pop origin))
  | .slot =>
    if p.sem t.key.role < cfg.limit t.key.role then
      { p with sem := Function.update p.sem t.key.role (p.sem t.key.role + 1) }.goto i (.total false)
    else p.goto i .park
  | .park =>
    if p.closed then (p.parkSlot i t.key).goto i (.leave .closed)
    else (p.parkSlot i t.key).goto i (.pop .waiting)
  | .evictRole => if p.othersOfRole t.key = [] then p.goto i .select else p
  | .leave outcome =>
    (p.leaveSlot i t.key).goto i <|
      match outcome with
      | .reused b => .holding b
      | .evicted => .park
      | .got => .total false
      | .woken => .park
      | .closed => .done
      | .cancelled => .done
  | .total _ =>
    if p.total < cfg.maxBackends then { p with total := p.total + 1 }.goto i .dialCheck
    else p.goto i .parkTotal
  | .parkTotal => (p.parkBudget i).goto i .evictAny
  | .evictAny => if p.idle = [] then p.goto i .selectTotal else p
  | .wokenTotal => p.goto i (.leaveTotal (if p.closed then .closed else .woken))
  | .leaveTotal outcome =>
    (p.leaveBudget i).goto i <|
      match outcome with
      | .evicted => .total false
      | .got => .dialCheck
      | .woken => .total true
      | .closed => .dropSem
      | .cancelled => .dropSem
  | .dialCheck => p.goto i (if p.closed then .freeTotal t.key.role .done else .dial)
  | .dropSem =>
    if 0 < p.sem t.key.role then
      { p with sem := Function.update p.sem t.key.role (p.sem t.key.role - 1) }.goto i .done
    else p
  | .freeTotal role next => if 0 < p.total then { p with total := p.total - 1 }.goto i (.freeSem role next) else p
  | .freeSem role next =>
    if 0 < p.sem role then
      { p with sem := Function.update p.sem role (p.sem role - 1) }.goto i next
    else p
  | .wakes keys => (keys.foldl wakeFor p).goto i .done
  | .abandoned _ => p.goto i .done
  | .select | .selectTotal | .dial | .holding _ | .done => p

/-- An event that is not possible leaves everything as it is. -/
def step (p : Pool) : Event → Pool
  | .acquire key keys =>
    p.spawn { key := key, keys := keys, stage := if p.closed then .done else .pop .first }
  | .run i => p.advance cfg i
  | .expired i =>
    match (p.threads i).stage with
    | .check origin b => p.goto i (.freeTotal b.key.role (.pop origin))
    | _ => p
  | .evict i b =>
    match (p.threads i).stage with
    | .evictRole =>
      if oldest (p.othersOfRole (p.threads i).key) b then
        (p.dropIdle b).goto i (.freeTotal b.key.role (.leave .evicted))
      else p
    | .evictAny =>
      if oldest p.idle b then (p.dropIdle b).goto i (.freeTotal b.key.role (.leaveTotal .evicted)) else p
    | _ => p
  | .slotFree i =>
    let key := (p.threads i).key
    match (p.threads i).stage with
    | .select =>
      if p.sem key.role < cfg.limit key.role then
        { p with sem := Function.update p.sem key.role (p.sem key.role + 1) }.goto i (.leave .got)
      else p
    | .selectTotal =>
      if p.total < cfg.maxBackends then { p with total := p.total + 1 }.goto i (.leaveTotal .got) else p
    | _ => p
  | .woken i =>
    if p.signal i then
      match (p.threads i).stage with
      | .select => (p.setSignal i false).goto i (.leave .woken)
      | .selectTotal => (p.setSignal i false).goto i .wokenTotal
      | _ => p
    else p
  | .cancel i =>
    match (p.threads i).stage with
    | .select => p.goto i (.leave .cancelled)
    | .selectTotal => p.goto i (.leaveTotal .cancelled)
    | _ => p
  | .dialled i now =>
    match (p.threads i).stage with
    | .dial =>
      let t := p.threads i
      let b : Backend := ⟨p.dialled, t.key, t.keys, cfg.credDigest t.keys, now⟩
      { p with dialled := p.dialled + 1 }.goto i (.holding b)
    | _ => p
  | .dialFailed i =>
    match (p.threads i).stage with
    | .dial => p.goto i (.freeTotal (p.threads i).key.role .done)
    | _ => p
  | .release i fit now =>
    match (p.threads i).stage with
    | .holding b =>
      if fit ∧ p.closed = false then
        ({ p with idle := p.idle ++ [{ b with lastUsed := now }] }.wakeFor b.key).goto i .done
      else p.goto i (.freeTotal b.key.role .done)
    | _ => p
  | .discard i =>
    match (p.threads i).stage with
    | .holding b => p.goto i (.freeTotal b.key.role .done)
    | _ => p
  | .abandon i =>
    match (p.threads i).stage with
    | .holding b => (p.goto i (.abandoned b)).spawn { stage := .freeTotal b.key.role .done }
    | _ => p
  | .reap dead =>
    if p.closed then p
    else
      let gone := p.idle.filter dead
      { p with idle := p.idle.filter fun b => !dead b }.spawn
        { stage := freeing gone (.wakes (gone.map Backend.key)) }
  | .close =>
    -- every waiter is woken and every idle backend is closed
    { p with
      closed := true
      signal := fun i => p.signal i || i ∈ p.budget || i ∈ p.waiters (p.threads i).key
      budget := []
      waiters := fun _ => []
      idle := [] }.spawn { stage := freeing p.idle .done }

def run (p : Pool) (es : List Event) : Pool := es.foldl (step cfg) p

end Pool

/-- The pool a pooler starts with, after any events. -/
def poolAfter (cfg : PoolConfig) (es : List Event) : Pool := Pool.run cfg.withDefaults {} es

end PgShard.Pooler
