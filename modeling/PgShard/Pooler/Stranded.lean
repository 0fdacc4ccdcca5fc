import PgShard.Pooler.Owners
import PgShard.Pooler.Waiters

/-!
# No waiter is left behind

A backend that comes back wakes the first waiter of its own role pool and the first of the budget. A
waiter of the same role in another database would evict the backend, and is not woken.
-/

namespace PgShard.Pooler

/-- An acquirer that was woken finds room in the budget, while another waits for the idle backend it
was woken for. -/
def Pool.passedBy (cfg : PoolConfig) (p : Pool) : Event → Bool
  | .run i => (p.threads i).stage = .total true ∧ p.total < cfg.maxBackends ∧ p.budget ≠ []
  | _ => false

namespace Attended

variable {cfg : PoolConfig} {p : Pool} {i : Nat} {s : Stage}

lemma idleAt_eq_zero {key : PoolKey} (h : p.lastIdle key = none) : p.idleAt (.slot key) = 0 := by
  rw [Pool.lastIdle, List.getLast?_eq_none_iff] at h
  simp only [Pool.idleAt, Line.covers_slot]
  rw [List.countP_eq_length_filter, h]
  rfl

lemma idleAt_drop {b : Backend} (h : b ∈ p.idle) (q : Line) :
    (p.dropIdle b).idleAt q + (if q.covers b.key then 1 else 0) = p.idleAt q := by
  have hperm := (List.perm_cons_erase h).countP_eq (fun c => q.covers c.key)
  simp only [Pool.idleAt, Pool.dropIdle, hperm, List.countP_cons]

/-- A thread goes on, and the idle backends are the same. -/
lemma go {p₁ : Pool} (h : Attended 0 p) (hi : (p.threads i).stage ≠ .done)
    (hwaits : ∀ side, s.waits side = (p.threads i).stage.waits side)
    (hlooks : ∀ q, q.covers (p.threads i).key = true → s.looked q.side = true →
      p.idleAt q = 0 ∨ (p.threads i).stage.looked q.side = true)
    (hturns : ∀ q, q.covers (p.threads i).key = true → p.queue q ≠ [] → p.idleAt q ≠ 0 →
      (p.threads i).stage.turns q.side ≤ s.turns q.side)
    (hq : SameQueues p p₁ := by exact {}) (hidle : p₁.idle = p.idle := by rfl) : Attended 0 (p₁.goto i s) := by
  have hsame : p₁.idleAt = p.idleAt := by
    funext q
    rw [Pool.idleAt, hidle]
    rfl
  refine h.turn hq hi (hidle ▸ List.Sublist.refl _) hwaits ?_ ?_
  · rwa [hsame]
  · rw [hsame]
    exact fun q hcovers hqueue hsome => Nat.add_le_add_left (hturns q hcovers hqueue hsome) _

lemma freeing_waits (bs : List Backend) (next : Stage) (side : Side) :
    (Pool.freeing bs next).waits side = next.waits side := by
  induction bs with
  | nil => rfl
  | cons b bs ih => cases side <;> exact ih

/-- What a thread that goes on does for the waiters. -/
lemma turns {p₁ : Pool} {t : Stage} (h : Attended 0 p) (hi : (p.threads i).stage = s)
    (ht : Turn cfg p i s p₁ t) : Attended 0 (p₁.goto i t) := by
  have hne : (p.threads i).stage ≠ .done := by
    rw [hi]
    cases ht <;> simp
  cases ht with
  | noneForWaiter hlast =>
    -- it looked, and there is nothing idle for it
    have hnone := idleAt_eq_zero hlast
    refine h.go hne ?_ ?_ ?_ <;> simp [hi, hnone]
  | parkClosed hclosed =>
    exact h.park (q := .slot _) hne (by simp) (by simp [hi]) rfl (by simp) fun hsome => absurd (h.closed hclosed) hsome
  | park => exact h.park (q := .slot _) hne (by simp) (by simp [hi]) rfl (by simp) (by simp [hi])
  | leave outcome =>
    cases outcome <;> exact h.leave (q := .slot _) hne (by simp) (by simp [hi]) (by simp) (by simp [hi])
  | parkTotal => exact h.park (q := .budget) hne rfl (by simp [hi]) rfl (by simp) (by simp [hi])
  | noneAtAll hnil =>
    refine h.go hne ?_ ?_ ?_ <;> simp [hi, Pool.idleAt_nil hnil]
  | foundClosed hclosed =>
    refine h.go hne ?_ ?_ ?_ <;> simp [hi, Pool.idleAt_nil (h.closed hclosed)]
  | leaveTotal outcome =>
    cases outcome <;> exact h.leave (q := .budget) hne rfl (by simp [hi]) (by simp) (by simp [hi])
  | woken hsignal | wokenTotal hsignal =>
    refine h.consume hne hsignal (by simp) (fun _ _ => le_rfl) ?_
    simp [hi, Stage.work]
  | wakes keys =>
    have hthread := congrFun (wakes_books p keys).threads i
    refine (h.wakes keys).go (by rwa [hthread]) ?_ ?_ ?_ <;>
      simp [hthread, hi]
  | reject origin | noTotal origin =>
    cases origin <;> refine h.go hne ?_ ?_ ?_ <;> simp [hi]
  | _ => refine h.go hne ?_ ?_ ?_ <;> simp [hi]

lemma moves {p₁ : Pool} {e : Event} (h : Attended 0 p) (hpass : p.passedBy cfg e = false)
    (hm : Moves cfg p e p₁) : Attended 0 p₁ := by
  cases hm with
  | same => exact h
  | turn hi ht => exact h.turns hi ht
  | @pop i origin b hi hlast =>
    obtain ⟨hmem, hkey⟩ := lastIdle_mem hlast
    have hslot := idleAt_drop hmem (.slot (p.threads i).key)
    have hbudget := idleAt_drop hmem .budget
    simp only [hkey, Line.covers_slot, Line.covers_budget, decide_true, if_true] at hslot hbudget
    cases origin <;>
      refine h.turn {} (by simp [hi]) List.erase_sublist ?_ ?_ ?_ <;> simp [hi] <;> omega
  | evictRole hi hb =>
    have hless : ∀ q, (p.dropIdle _).idleAt q ≤ p.idleAt q := fun q => Nat.le.intro (idleAt_drop hb q)
    refine h.turn {} (by simp [hi]) List.erase_sublist ?_ ?_ ?_ <;> simp [hi, hless]
  | evictAny hi hb =>
    have hless : ∀ q, (p.dropIdle _).idleAt q ≤ p.idleAt q := fun q => Nat.le.intro (idleAt_drop hb q)
    have hbudget : (p.dropIdle _).idleAt .budget + 1 = p.idleAt .budget := idleAt_drop hb .budget
    refine h.turn {} (by simp [hi]) List.erase_sublist (by simp [hi]) (by simp [hi]) ?_
    rw [Line.forall_covers, hi]
    exact ⟨fun _ _ => hless _, fun _ _ => hbudget.le⟩
  | takeSlot hi hst =>
    rcases hst with ⟨rfl, rfl⟩ | ⟨rfl, rfl⟩ <;>
      refine h.go (by simp [hi]) ?_ ?_ ?_ <;> simp [hi]
  | takeTotal hi hst hroom =>
    rcases hst with ⟨rfl, ⟨woken, rfl⟩, rfl⟩ | ⟨rfl, rfl⟩
    · refine h.go (by simp [hi]) (by simp [hi]) (by simp [hi]) ?_
      simp only [Line.forall_covers]
      refine ⟨by simp [hi], fun hbudget _ => ?_⟩
      cases woken with
      | false => simp [hi]
      | true =>
        replace hbudget : p.budget ≠ [] := hbudget
        simp [Pool.passedBy, hi, hroom, hbudget] at hpass
    · refine h.go (by simp [hi]) ?_ ?_ ?_ <;> simp [hi]
  | freeTotal hi | freeSem hi =>
    refine h.go (by simp [hi]) ?_ ?_ ?_
    · simp [hi]
    · exact fun q _ hlooked => .inr (by rw [hi]; cases q <;> exact hlooked)
    · simp [hi]
  | dropSem hi | dialled _ hi =>
    refine h.go (by simp [hi]) ?_ ?_ ?_ <;> simp [hi]
  | release now hi hopen => exact h.release now hi hopen
  | @abandon i b hi =>
    have hgo : Attended 0 (p.goto i (.abandoned b)) := by
      refine h.go (by simp [hi]) ?_ ?_ ?_ <;> simp [hi]
    exact hgo.spawn (by simp)
  | acquire =>
    refine h.spawn ?_
    cases p.closed <;> simp
  | reap dead =>
    refine h.spawn (fun side => ?_) {} List.filter_sublist
    rw [freeing_waits]
    cases side <;> rfl
  | close =>
    refine h.close.spawn fun side => ?_
    rw [freeing_waits]
    cases side <;> rfl

lemma step (h : Attended 0 p) (e : Event) (hpass : p.passedBy cfg e = false) : Attended 0 (p.step cfg e) :=
  h.moves hpass (step_moves cfg p e)

end Attended

/-! ### The keys that are in use -/

/-- A thread that only gives tokens back. -/
@[simp] def Stage.janitor : Stage → Bool
  | .wakes _ | .done => true
  | .freeTotal _ next | .freeSem _ next => next.janitor
  | _ => false

/-- Every acquirer and every idle backend is of a database and role that `K` allows. -/
structure Keyed (K : PoolKey → Prop) (p : Pool) : Prop where
  idle : ∀ b ∈ p.idle, K b.key
  thread : ∀ i, (p.threads i).stage.janitor = true ∨ K (p.threads i).key

namespace Keyed

variable {cfg : PoolConfig} {K : PoolKey → Prop} {p p₁ : Pool} {i : Nat} {s : Stage}

lemma goto (h : Keyed K p) (hs : (p.threads i).stage.janitor = true → s.janitor = true)
    (hidle : ∀ b ∈ p₁.idle, K b.key) (hthreads : p₁.threads = p.threads := by rfl) : Keyed K (p₁.goto i s) := by
  refine ⟨hidle, fun j => ?_⟩
  by_cases hj : j = i
  · subst hj
    simp only [goto_self, hthreads, Thread.goto_stage, Thread.goto_key]
    exact (h.thread j).imp hs id
  · simp only [Pool.goto, Function.update_of_ne hj, hthreads]
    exact h.thread j

/-- The idle backends are the same. -/
lemma turn (h : Keyed K p) (hb : SameBooks p p₁)
    (hs : (p.threads i).stage.janitor = true → s.janitor = true) : Keyed K (p₁.goto i s) :=
  h.goto hs (hb.idle ▸ h.idle) hb.threads

lemma drop (h : Keyed K p) (b : Backend)
    (hs : (p.threads i).stage.janitor = true → s.janitor = true) : Keyed K ((p.dropIdle b).goto i s) :=
  h.goto hs fun c hc => h.idle c (List.mem_of_mem_erase hc)

lemma spawn (h : Keyed K p) {t : Thread} (ht : t.stage.janitor = true ∨ K t.key)
    (hidle : p₁.idle.Sublist p.idle := by rfl) (hthreads : p₁.threads = p.threads := by rfl) :
    Keyed K (p₁.spawn t) := by
  refine ⟨fun b hb => h.idle b (hidle.subset hb), fun j => ?_⟩
  by_cases hj : j = p₁.started
  · subst hj
    simpa only [Pool.spawn, Function.update_self] using ht
  · simp only [Pool.spawn, Function.update_of_ne hj, hthreads]
    exact h.thread j

lemma freeing_janitor (bs : List Backend) (next : Stage) : (Pool.freeing bs next).janitor = next.janitor := by
  induction bs with
  | nil => rfl
  | cons b bs ih => exact ih

lemma moves (h : Keyed K p) (ho : Owned cfg p) {e : Event}
    (he : ∀ key keys, e = .acquire key keys → K key) (hm : Moves cfg p e p₁) : Keyed K p₁ := by
  cases hm with
  | same => exact h
  | turn hi ht =>
    have hb := ht.books
    cases ht <;> exact h.turn hb (by simp [hi])
  | pop hi | evictRole hi | evictAny hi => exact h.drop _ (by simp [hi])
  | takeSlot hi hst =>
    rcases hst with ⟨rfl, rfl⟩ | ⟨rfl, rfl⟩ <;> exact h.goto (by simp [hi]) h.idle
  | takeTotal hi hst =>
    rcases hst with ⟨-, ⟨woken, rfl⟩, rfl⟩ | ⟨rfl, rfl⟩ <;> exact h.goto (by simp [hi]) h.idle
  | dropSem hi | freeTotal hi | freeSem hi | dialled _ hi => exact h.goto (by simp [hi]) h.idle
  | @release i b now hi =>
    have hbooks := wakeFor_books { p with idle := p.idle ++ [{ b with lastUsed := now }] } b.key
    refine h.goto (by simp) ?_ hbooks.threads
    intro c hc
    rw [hbooks.idle] at hc
    rcases List.mem_append.mp hc with hold | hnew
    · exact h.idle c hold
    · -- the backend is of its holder's database and role
      have hkey := (ho.suits i).keyed b (by simp [hi])
      have hK := (h.thread i).resolve_left (by simp [hi])
      rw [List.mem_singleton.mp hnew]
      simpa only [hkey] using hK
  | @abandon i b hi =>
    have hgo : Keyed K (p.goto i (.abandoned b)) := h.turn {} (by simp [hi])
    exact hgo.spawn (.inl rfl)
  | @acquire key keys heq => exact h.spawn (.inr (he key keys heq))
  | reap dead => exact h.spawn (.inl (by simp [freeing_janitor])) List.filter_sublist
  | close => exact h.spawn (.inl (by simp [freeing_janitor])) (List.nil_sublist _)

lemma step (h : Keyed K p) (ho : Owned cfg p) (e : Event)
    (he : ∀ key keys, e = .acquire key keys → K key) : Keyed K (p.step cfg e) :=
  h.moves ho he (step_moves cfg p e)

end Keyed

/-- The thread is not in the middle of an operation: it has returned, or it sleeps. -/
def Pool.restsAt (p : Pool) (i : Nat) : Bool :=
  match (p.threads i).stage with
  | .done | .holding _ | .abandoned _ => true
  | .select | .selectTotal => p.signal i = false
  | _ => false

/-- No operation is in flight, and nobody has a wake-up. -/
def Pool.quiet (p : Pool) : Prop := ∀ i, p.restsAt i = true

/-- No acquirer is passed by along the run. -/
def nonePassedBy (cfg : PoolConfig) : Pool → List Event → Bool
  | _, [] => true
  | p, e :: es => !p.passedBy cfg e && nonePassedBy cfg (p.step cfg e) es

lemma attended_init : Attended 0 {} := by
  refine ⟨fun _ _ => rfl, fun _ => rfl, fun q => ?_, fun _ => Waiting.Served.none _ _ _ _⟩
  cases q <;> exact ⟨List.nodup_nil, by simp [Pool.queue, Pool.room]⟩

lemma attended_run {cfg : PoolConfig} {p : Pool} (es : List Event) (h : Attended 0 p)
    (hpass : nonePassedBy cfg p es = true) : Attended 0 (Pool.run cfg p es) := by
  induction es generalizing p with
  | nil => exact h
  | cons e es ih =>
    simp only [nonePassedBy, Bool.and_eq_true, Bool.not_eq_true'] at hpass
    exact ih (h.step e hpass.1) hpass.2

lemma keyed_run {cfg : PoolConfig} {K : PoolKey → Prop} {p : Pool} (es : List Event) (h : Keyed K p)
    (ho : Owned cfg p) (he : ∀ key keys, .acquire key keys ∈ es → K key) : Keyed K (Pool.run cfg p es) := by
  induction es generalizing p with
  | nil => exact h
  | cons e es ih =>
    refine ih (h.step ho e ?_) (ho.step e) fun key keys hmem => he key keys (.tail _ hmem)
    intro key keys heq
    exact he key keys (heq ▸ .head _)

namespace Pool

variable {p : Pool} {i : Nat}

lemma quiet.work (h : p.quiet) (i : Nat) (side : Side) : (p.threads i).stage.work (p.signal i) side = 0 := by
  have hi := h i
  simp only [restsAt] at hi
  cases side <;> split at hi <;> simp_all [Stage.work]

lemma quiet.asleep (h : p.quiet)
    (hi : (p.threads i).stage = .select ∨ (p.threads i).stage = .selectTotal) : p.signal i = false := by
  have hrests := h i
  rcases hi with hi | hi <;> simpa [restsAt, hi] using hrests

end Pool

namespace Attended

variable {p : Pool} {i : Nat}

lemma idleAt_of_quiet (h : Attended 0 p) (hquiet : p.quiet) {q : Line} (hsignal : p.signal i = false)
    (hlooked : (p.room q).looked i = true) : p.idleAt q = 0 := by
  have hle := h.served q ⟨i, hlooked, hsignal⟩
  have hwork : ∑ j ∈ Finset.range p.started, (p.room q).work p.signal j = 0 := by
    refine Finset.sum_eq_zero fun j _ => ?_
    rw [room_work, hquiet.work]
    exact ite_self 0
  rw [hwork] at hle
  exact Nat.le_zero.mp hle

end Attended

/-- If every role is used in one database and nobody is passed by, no waiter sleeps beside an idle
backend it could reuse or would evict. -/
theorem waiters_not_stranded (cfg : PoolConfig) (es : List Event)
    (hdatabase : ∀ key keys key' keys', Event.acquire key keys ∈ es → Event.acquire key' keys' ∈ es →
      key.role = key'.role → key = key')
    (hpass : nonePassedBy cfg.withDefaults {} es = true) (hquiet : (poolAfter cfg es).quiet) (i : Nat) :
    (((poolAfter cfg es).threads i).stage = .select →
      ∀ b ∈ (poolAfter cfg es).idle, b.key.role ≠ ((poolAfter cfg es).threads i).key.role) ∧
    (((poolAfter cfg es).threads i).stage = .selectTotal → (poolAfter cfg es).idle = []) := by
  have ha : Attended 0 (poolAfter cfg es) := attended_run es attended_init hpass
  refine ⟨fun hi b hb hrole => ?_, fun hi => ?_⟩
  rotate_left
  · have hzero := ha.idleAt_of_quiet (q := .budget) hquiet (hquiet.asleep (.inr hi)) (by simp [Pool.room, hi])
    rwa [Pool.idleAt_budget, List.length_eq_zero_iff] at hzero
  have hkeyed : Keyed (fun key => ∃ keys, Event.acquire key keys ∈ es) (poolAfter cfg es) := by
    refine keyed_run es ⟨by simp, fun _ => .inl rfl⟩ (owned_init _) ?_
    exact fun key keys hmem => ⟨keys, hmem⟩
  obtain ⟨keys, hacquired⟩ := (hkeyed.thread i).resolve_left (by simp [hi])
  obtain ⟨keys', hacquired'⟩ := hkeyed.idle b hb
  have hkey : b.key = ((poolAfter cfg es).threads i).key := hdatabase _ _ _ _ hacquired' hacquired hrole
  have hzero := ha.idleAt_of_quiet (q := .slot ((poolAfter cfg es).threads i).key) hquiet (hquiet.asleep (.inl hi))
    (by simp [Pool.room, hi])
  rw [Pool.idleAt, List.countP_eq_zero] at hzero
  exact hzero b hb (by simpa using hkey)

lemma quiet_of_started {cfg : PoolConfig} {es : List Event}
    (h : ∀ i < (poolAfter cfg es).started, (poolAfter cfg es).restsAt i = true) : (poolAfter cfg es).quiet := by
  intro i
  by_cases hi : i < (poolAfter cfg es).started
  · exact h i hi
  · have hdone := (poolAfter_invariants cfg es).1.rest i (by omega)
    simp [Pool.restsAt, hdone]

def someKeys : ScramKeys := ⟨List.replicate 32 1, [], rfl⟩

/-- The thread acquires and dials a backend. -/
def dials (i : Nat) (key : PoolKey) : List Event :=
  [.acquire key someKeys, .run i, .run i, .run i, .run i, .dialled i 0]

/-- The thread finds no slot for it, and sleeps. -/
def sleeps (i : Nat) (key : PoolKey) : List Event := [.acquire key someKeys, .run i, .run i, .run i, .run i, .run i]

theorem waiters_not_stranded_turn :
    let p := poolAfter ⟨2, 1, [], 0, id⟩ (dials 0 ⟨"a", "r"⟩ ++ sleeps 1 ⟨"a", "r"⟩ ++ sleeps 2 ⟨"a", "r"⟩ ++
      [.release 0 true 1, .woken 1, .run 1, .run 1, .run 1, .run 1, .run 1])
    (p.threads 2).stage = .select ∧ ∀ b ∈ p.idle, b.key.role ≠ (p.threads 2).key.role := by
  have hstage : ((poolAfter ⟨2, 1, [], 0, id⟩ (dials 0 ⟨"a", "r"⟩ ++ sleeps 1 ⟨"a", "r"⟩ ++
      sleeps 2 ⟨"a", "r"⟩ ++ [.release 0 true 1, .woken 1, .run 1, .run 1, .run 1, .run 1,
        .run 1])).threads 2).stage = .select := by
    decide +kernel
  refine ⟨hstage, (waiters_not_stranded _ _ ?_ ?_ (quiet_of_started ?_) 2).1 hstage⟩
  · intro key keys key' keys' h h' _
    simp only [dials, sleeps, List.mem_append, List.mem_cons, Event.acquire.injEq, reduceCtorEq,
      List.not_mem_nil, or_false] at h h'
    grind
  · decide +kernel
  · decide +kernel

/-- A role sleeps for its slot in one database while its idle backend is in another. And a waiter for the
budget sleeps beside an idle backend, since the waiter woken for it took the place of a discarded one. -/
theorem waiter_stranded :
    (let p := poolAfter ⟨2, 1, [], 0, id⟩
      (dials 0 ⟨"a", "r"⟩ ++ sleeps 1 ⟨"b", "r"⟩ ++ [.release 0 true 1])
     p.quiet ∧ (p.threads 1).stage = .select ∧ p.idle.map Backend.key = [⟨"a", "r"⟩]) ∧
    (let p := poolAfter ⟨2, 2, [], 0, id⟩
      (dials 0 ⟨"a", "r"⟩ ++ dials 1 ⟨"a", "s"⟩ ++ sleeps 2 ⟨"a", "t"⟩ ++ sleeps 3 ⟨"a", "u"⟩ ++
        [.release 0 true 1, .discard 1, .run 1, .run 1, .woken 2, .run 2, .run 2, .run 2, .run 2, .dialled 2 1])
     p.quiet ∧ (p.threads 3).stage = .selectTotal ∧ p.idle.map Backend.key = [⟨"a", "r"⟩]) := by
  refine ⟨⟨quiet_of_started ?_, ?_, ?_⟩, ⟨quiet_of_started ?_, ?_, ?_⟩⟩ <;> decide +kernel

end PgShard.Pooler
