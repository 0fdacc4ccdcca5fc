import PgShard.Pooler.Capacity

/-!
# The acquirers that wait

An acquirer waits in the queue of its database and role for a slot, then in the queue of the shard for
the budget. Each queue is a room of its own; the pieces are the idle backends it could use.
-/

namespace PgShard.Pooler

open Waiting Finset

/-- Between queueing for the role and leaving, no wake-up consumed. -/
@[simp] def Stage.slotWaits : Stage → Bool
  | .pop .waiting | .check .waiting _ | .evictRole | .select => true
  | .leave .woken => false
  | .leave _ => true
  | .freeTotal _ next | .freeSem _ next => next.slotWaits
  | _ => false

@[simp] def Stage.slotLooked : Stage → Bool
  | .evictRole | .select => true
  | .freeTotal _ next | .freeSem _ next => next.slotLooked
  | _ => false

@[simp] def Stage.slotTurns : Stage → Nat
  | .leave .woken | .park | .pop .waiting => 1
  | .freeTotal _ next | .freeSem _ next => next.slotTurns
  | _ => 0

/-- Between queueing for the budget and leaving, no wake-up consumed. -/
@[simp] def Stage.totalWaits : Stage → Bool
  | .evictAny | .selectTotal => true
  | .leaveTotal .woken | .leaveTotal .closed => false
  | .leaveTotal _ => true
  | .freeTotal _ next | .freeSem _ next => next.totalWaits
  | _ => false

@[simp] def Stage.totalLooked : Stage → Bool
  | .selectTotal => true
  | .freeTotal _ next | .freeSem _ next => next.totalLooked
  | _ => false

@[simp] def Stage.totalTurns : Stage → Nat
  | .wokenTotal | .leaveTotal .woken | .total true | .parkTotal | .evictAny => 1
  | .freeTotal _ next | .freeSem _ next => next.totalTurns
  | _ => 0

/-- What an acquirer waits for. -/
inductive Side
  | slot
  | budget

@[simp] lemma Side.forall_iff {P : Side → Prop} : (∀ side, P side) ↔ P .slot ∧ P .budget :=
  ⟨fun h => ⟨h _, h _⟩, fun h side => by cases side; exacts [h.1, h.2]⟩

namespace Stage

def waits (s : Stage) : Side → Bool
  | .slot => s.slotWaits
  | .budget => s.totalWaits

def looked (s : Stage) : Side → Bool
  | .slot => s.slotLooked
  | .budget => s.totalLooked

def turns (s : Stage) : Side → Nat
  | .slot => s.slotTurns
  | .budget => s.totalTurns

variable {s : Stage} {side : Side}

@[simp] lemma waits_slot : s.waits .slot = s.slotWaits := rfl

@[simp] lemma waits_budget : s.waits .budget = s.totalWaits := rfl

@[simp] lemma looked_slot : s.looked .slot = s.slotLooked := rfl

@[simp] lemma looked_budget : s.looked .budget = s.totalLooked := rfl

@[simp] lemma turns_slot : s.turns .slot = s.slotTurns := rfl

@[simp] lemma turns_budget : s.turns .budget = s.totalTurns := rfl

lemma waits_of_looked (h : s.looked side = true) : s.waits side = true := by
  induction s with
  | freeTotal role next ih | freeSem role next ih => cases side <;> exact ih h
  | _ => cases side <;> simp_all

lemma looked_of_not (h : s.waits side = false) : s.looked side = false := by
  by_contra hlooked
  rw [waits_of_looked (by simpa using hlooked)] at h
  cases h

/-- No thread waits for both. -/
lemma waits_one {side' : Side} (h : s.waits side = true) (h' : s.waits side' = true) : side = side' := by
  induction s with
  | freeTotal role next ih | freeSem role next ih => cases side <;> cases side' <;> first | rfl | exact ih h h'
  | _ => cases side <;> cases side' <;> simp_all

/-- How often a thread at this stage, with a wake-up or not, is going to look again. -/
def work (s : Stage) (signal : Bool) (side : Side) : Nat :=
  s.turns side + if s.waits side = true ∧ signal = true then 1 else 0

lemma work_of_not (h : s.waits side = false) (signal : Bool) : s.work signal side = s.turns side := by
  simp [work, h]

end Stage

/-- The queue of a database and role, or of the shard. -/
inductive Line
  | slot (key : PoolKey)
  | budget
  deriving DecidableEq

namespace Line

def side : Line → Side
  | .slot _ => .slot
  | .budget => .budget

/-- The line is one that threads and backends of this database and role are concerned with. -/
def covers (q : Line) (key : PoolKey) : Bool :=
  match q with
  | .slot key' => key = key'
  | .budget => true

@[simp] lemma side_slot (key : PoolKey) : (slot key).side = .slot := rfl

@[simp] lemma side_budget : budget.side = .budget := rfl

@[simp] lemma covers_slot (key key' : PoolKey) : (slot key').covers key = decide (key = key') := rfl

@[simp] lemma covers_budget (key : PoolKey) : budget.covers key = true := rfl

@[simp] lemma forall_covers {P : Line → Prop} {key : PoolKey} :
    (∀ q, covers q key = true → P q) ↔ P (.slot key) ∧ P .budget := by
  refine ⟨fun h => ⟨h _ (by simp), h _ rfl⟩, fun h q hq => ?_⟩
  cases q with
  | slot key' =>
    obtain rfl : key = key' := by simpa using hq
    exact h.1
  | budget => exact h.2

lemma eq_of_side {q q' : Line} {key : PoolKey} (hq : q.covers key = true) (hq' : q'.covers key = true)
    (h : q.side = q'.side) : q = q' := by
  cases q <;> cases q' <;> simp_all

end Line

namespace Pool

def room (p : Pool) (q : Line) : Room where
  waits i := q.covers (p.threads i).key && (p.threads i).stage.waits q.side
  looked i := q.covers (p.threads i).key && (p.threads i).stage.looked q.side
  turns i := if q.covers (p.threads i).key then (p.threads i).stage.turns q.side else 0
  waits_of_looked i h := by
    simp only [Bool.and_eq_true] at h ⊢
    exact ⟨h.1, Stage.waits_of_looked h.2⟩

def queue (p : Pool) : Line → List Nat
  | .slot key => p.waiters key
  | .budget => p.budget

def setQueue (p : Pool) (l : List Nat) : Line → Pool
  | .slot key => p.setWaiters key l
  | .budget => { p with budget := l }

def wakeOne (p : Pool) (q : Line) : Pool :=
  match p.queue q with
  | [] => p
  | i :: rest => (p.setSignal i true).setQueue rest q

def leaveQueue (p : Pool) (i : Nat) (q : Line) : Pool :=
  if i ∈ p.queue q then p.setQueue ((p.queue q).erase i) q
  else if p.signal i then (p.setSignal i false).wakeOne q
  else p

/-- The idle backends an acquirer of the line could use. -/
def idleAt (p : Pool) (q : Line) : Nat := p.idle.countP fun b => q.covers b.key

lemma idleAt_nil {p : Pool} (h : p.idle = []) (q : Line) : p.idleAt q = 0 := by simp [idleAt, h]

lemma idleAt_budget (p : Pool) : p.idleAt .budget = p.idle.length := by simp [idleAt]

end Pool

lemma room_work (p : Pool) (q : Line) (signal : Nat → Bool) (i : Nat) : (p.room q).work signal i =
      if q.covers (p.threads i).key then (p.threads i).stage.work (signal i) q.side else 0 := by
  cases hkey : q.covers (p.threads i).key <;> simp [Room.work, Pool.room, hkey, Stage.work]

/-- Nobody sleeps beside something idle, but for the wake-ups that are `due` to each line. -/
structure Attended (due : Line → Nat) (p : Pool) : Prop where
  rest : ∀ i, p.started ≤ i → (p.threads i).stage = .done
  closed : p.closed = true → p.idle = []
  queued : ∀ q, Queued (p.room q) p.signal (p.queue q)
  served : ∀ q, Served (p.room q) p.signal p.started (p.idleAt q) (due q)

section

variable {p p₁ : Pool} {i : Nat} {s : Stage} (q : Line)

@[simp] lemma goto_self : (p.goto i s).threads i = (p.threads i).goto s := Function.update_self ..

lemma room_sameBut (hthreads : p₁.threads = p.threads) : Room.SameBut i (p.room q) ((p₁.goto i s).room q) := by
  constructor <;> intro j hj <;> simp [Pool.room, Pool.goto, hthreads, Function.update_of_ne hj]

lemma room_waits (hthreads : p₁.threads = p.threads) :
    ((p₁.goto i s).room q).waits i = (q.covers (p.threads i).key && s.waits q.side) := by
  simp [Pool.room, hthreads]

end

namespace Attended

variable {p p₁ : Pool} {due due₁ : Line → Nat} {i : Nat} {s : Stage} {q : Line}

section

variable (h : Attended due p) (hi : (p.threads i).stage ≠ .done)

include h hi

lemma started : i < p.started := by
  by_contra hno
  exact hi (h.rest i (by omega))

lemma goto_rest (hthreads : p₁.threads = p.threads) (hstarted : p₁.started = p.started) :
    ∀ j, (p₁.goto i s).started ≤ j → ((p₁.goto i s).threads j).stage = .done := by
  intro j hj
  have hj : p.started ≤ j := by rw [← hstarted]; exact hj
  have hne : j ≠ i := fun heq => hi (heq ▸ h.rest j hj)
  simp only [Pool.goto, hthreads, Function.update_of_ne hne]
  exact h.rest j hj

lemma served_goto (hthreads : p₁.threads = p.threads) (hstarted : p₁.started = p.started)
    (hsignal : ∀ j, j ≠ i → p₁.signal j = p.signal j) {d : Nat}
    (hlooks : q.covers (p.threads i).key = true → s.looked q.side = true → p₁.signal i = false →
      p₁.idleAt q = 0 ∨ (p.threads i).stage.looked q.side = true ∧ p.signal i = false)
    (hother : q.covers (p.threads i).key = false → p₁.idleAt q + due q ≤ p.idleAt q + d)
    (hown : q.covers (p.threads i).key = true → p₁.idleAt q ≠ 0 →
      p₁.idleAt q + due q + (p.threads i).stage.work (p.signal i) q.side ≤
        p.idleAt q + d + s.work (p₁.signal i) q.side) :
    Served ((p₁.goto i s).room q) (p₁.goto i s).signal (p₁.goto i s).started ((p₁.goto i s).idleAt q) d := by
  change Served _ p₁.signal p₁.started (p₁.idleAt q) _
  by_cases hzero : p₁.idleAt q = 0
  · rw [hzero]
    exact Served.none _ _ _ _
  have hserved := h.served q
  rw [← hstarted] at hserved
  refine hserved.change (hstarted ▸ h.started hi) hsignal (room_sameBut q hthreads) ?_ ?_
  · intro hnew hasleep
    simp only [Pool.room, goto_self, hthreads, Thread.goto_key, Thread.goto_stage, Bool.and_eq_true] at hnew ⊢
    exact (hlooks hnew.1 hnew.2 hasleep).imp id fun hold => ⟨⟨hnew.1, hold.1⟩, hold.2⟩
  · cases hkey : q.covers (p.threads i).key with
    | true => simpa [room_work, hthreads, hkey] using hown hkey hzero
    | false => simpa [room_work, hthreads, hkey] using hother hkey

end

/-- The wait queues are the same. -/
structure SameQueues (p p₁ : Pool) : Prop where
  threads : p₁.threads = p.threads := by rfl
  started : p₁.started = p.started := by rfl
  closed : p₁.closed = p.closed := by rfl
  waiters : p₁.waiters = p.waiters := by rfl
  budget : p₁.budget = p.budget := by rfl
  signal : p₁.signal = p.signal := by rfl

lemma SameQueues.queue (h : SameQueues p p₁) : p₁.queue = p.queue := by
  funext q
  cases q with
  | slot key => exact congrFun h.waiters key
  | budget => exact h.budget

lemma closed_of_sublist (h : Attended due p) (hclosed : p₁.closed = p.closed)
    (hidle : p₁.idle.Sublist p.idle) : p₁.closed = true → p₁.idle = [] := by
  intro hp
  have hnil := h.closed (hclosed ▸ hp)
  rw [hnil] at hidle
  exact List.sublist_nil.mp hidle

/-- A thread goes on where it waits, or does not wait before and after. -/
lemma turn (h : Attended due p) (hq : SameQueues p p₁) (hi : (p.threads i).stage ≠ .done)
    (hidle : p₁.idle.Sublist p.idle) (hwaits : ∀ side, s.waits side = (p.threads i).stage.waits side)
    (hlooks : ∀ q, q.covers (p.threads i).key = true → s.looked q.side = true →
      p₁.idleAt q = 0 ∨ (p.threads i).stage.looked q.side = true)
    (hturns : ∀ q, q.covers (p.threads i).key = true → p.queue q ≠ [] → p₁.idleAt q ≠ 0 →
      p₁.idleAt q + (p.threads i).stage.turns q.side ≤ p.idleAt q + s.turns q.side) : Attended due (p₁.goto i s) := by
  have hqueued : ∀ q, Queued ((p₁.goto i s).room q) p₁.signal (p.queue q) := by
    intro q
    have hqueue := h.queued q
    rw [← hq.signal] at hqueue
    refine hqueue.stay (room_sameBut q hq.threads) ?_
    rw [room_waits q hq.threads, hwaits]
    rfl
  refine ⟨h.goto_rest hi hq.threads hq.started, h.closed_of_sublist hq.closed hidle, ?_, fun q => ?_⟩
  · change ∀ q, Queued _ p₁.signal (p₁.queue q)
    rwa [hq.queue]
  · by_cases hempty : p.queue q = []
    · -- nobody is in the queue, before and after
      exact Served.empty (hempty ▸ hqueued q)
    · refine h.served_goto hi hq.threads hq.started (fun j _ => congrFun hq.signal j) ?_ ?_ ?_
      · intro hcovers hlooked hsignal
        rw [hq.signal] at hsignal
        exact (hlooks q hcovers hlooked).imp id fun hold => ⟨hold, hsignal⟩
      · exact fun _ => Nat.add_le_add_right hidle.countP_le _
      · intro hcovers hsome
        have := hturns q hcovers hempty hsome
        rw [Stage.work, Stage.work, hwaits, hq.signal]
        omega

lemma queue_setQueue (p : Pool) (l : List Nat) (q q' : Line) :
    (p.setQueue l q).queue q' = if q' = q then l else p.queue q' := by
  cases q <;> cases q' <;> simp [Pool.setQueue, Pool.queue, Pool.setWaiters, Function.update_apply]

lemma setQueue {l : List Nat} (hrest : ∀ i, p.started ≤ i → (p.threads i).stage = .done)
    (hclosed : p.closed = true → p.idle = []) (hself : Queued (p.room q) p.signal l)
    (hother : ∀ q', q' ≠ q → Queued (p.room q') p.signal (p.queue q'))
    (hserved : ∀ q', Served (p.room q') p.signal p.started (p.idleAt q') (due q')) : Attended due (p.setQueue l q) := by
  have hqueued : ∀ q', Queued (p.room q') p.signal ((p.setQueue l q).queue q') := by
    intro q'
    rw [queue_setQueue]
    split
    · rwa [‹q' = q›]
    · exact hother q' ‹_›
  cases q <;> exact ⟨hrest, hclosed, hqueued, hserved⟩

lemma goto_setQueue (p : Pool) (l : List Nat) (q : Line) (i : Nat) (s : Stage) :
    (p.setQueue l q).goto i s = (p.goto i s).setQueue l q := by
  cases q <;> rfl

/-- A thread waits in one line. -/
lemma waits_line {q q' : Line} (h : (p.room q).waits i = true) (hne : q' ≠ q) : (p.room q').waits i = false := by
  by_contra hno
  simp only [Pool.room, Bool.and_eq_true, Bool.not_eq_false] at h hno
  exact hne (Line.eq_of_side hno.1 h.1 (Stage.waits_one hno.2 h.2))

lemma wakeOne (h : Attended due p) (hother : ∀ q', q' ≠ q → due q' ≤ due₁ q') (hq : due q ≤ due₁ q + 1) :
    Attended due₁ (p.wakeOne q) := by
  have hqueue := h.queued q
  unfold Pool.wakeOne
  split
  · rename_i hnil
    rw [hnil] at hqueue
    refine { h with served := fun q' => ?_ }
    by_cases hq' : q' = q
    · subst hq'
      exact Served.empty hqueue
    · exact (h.served q').mono (hother q' hq')
  · rename_i i rest hcons
    rw [hcons] at hqueue
    have hwaits := hqueue.head.1
    have hi : i < p.started := h.started fun hdone => by cases q <;> simp [Pool.room, hdone] at hwaits
    refine setQueue (p := p.setSignal i true) h.rest h.closed hqueue.wake (fun q' hq' => ?_) fun q' => ?_
    · exact (h.queued q').other (fun j hj => Function.update_of_ne hj _ _) (Room.SameBut.refl i _)
        (waits_line hwaits hq') (waits_line hwaits hq')
    · by_cases hq' : q' = q
      · subst hq'
        exact ((h.served q').mono hq).wake hqueue hi
      · exact ((h.served q').mono (hother q' hq')).other (waits_line hwaits hq') true

lemma goto_wakeOne (p : Pool) (i : Nat) (s : Stage) (q : Line) : (p.wakeOne q).goto i s = (p.goto i s).wakeOne q := by
  have hqueue : (p.goto i s).queue q = p.queue q := by cases q <;> rfl
  unfold Pool.wakeOne
  rw [hqueue]
  cases p.queue q with
  | nil => rfl
  | cons j rest => exact goto_setQueue ..

lemma wakeFor {key : PoolKey} (h : Attended due p) (hdue : ∀ q, due q ≤ if q.covers key then 1 else 0) :
    Attended 0 (p.wakeFor key) := by
  have hslot : Attended (Pi.single .budget 1) (p.wakeOne (.slot key)) := by
    refine h.wakeOne (fun q hq => ?_) ?_
    · have hle := hdue q
      cases q with
      | slot key' =>
        have hne : key ≠ key' := fun heq => hq (heq ▸ rfl)
        simpa [hne] using hle
      | budget => simpa using hle
    · simpa using hdue (.slot key)
  exact hslot.wakeOne (fun q hq => (Pi.single_eq_of_ne hq 1).le) (Pi.single_eq_same _ _).le

lemma wakes (h : Attended 0 p) (keys : List PoolKey) : Attended 0 (keys.foldl Pool.wakeFor p) := by
  induction keys generalizing p with
  | nil => exact h
  | cons key keys ih => exact ih (h.wakeFor fun _ => Nat.zero_le _)

/-- A thread takes its wake-up and waits no more. -/
lemma consume (h : Attended due p) (hi : (p.threads i).stage ≠ .done) (hsignal : p.signal i = true)
    (hwaits : ∀ side, s.waits side = false) (hother : ∀ q, q.covers (p.threads i).key = false → due q ≤ due₁ q)
    (hown : ∀ q, q.covers (p.threads i).key = true →
      due q + (p.threads i).stage.work true q.side ≤ due₁ q + s.turns q.side) :
    Attended due₁ ((p.setSignal i false).goto i s) := by
  have hthreads : (p.setSignal i false).threads = p.threads := rfl
  refine ⟨h.goto_rest hi rfl rfl, h.closed, fun q => ?_, fun q => ?_⟩
  · have hnew : (((p.setSignal i false).goto i s).room q).waits i = false := by
      rw [room_waits q hthreads, hwaits, Bool.and_false]
    have hqueue := (h.queued q).consume hsignal (room_sameBut q hthreads) hnew
    cases q <;> exact hqueue
  · have hidle : (p.setSignal i false).idleAt q = p.idleAt q := rfl
    refine h.served_goto hi hthreads rfl (fun j hj => Function.update_of_ne hj _ _) ?_ ?_ ?_
    · simp [Stage.looked_of_not (hwaits q.side)]
    · exact fun hcovers => Nat.add_le_add_left (hother q hcovers) _
    · intro hcovers _
      have hle := hown q hcovers
      rw [hsignal, Stage.work_of_not (hwaits q.side)]
      omega

lemma park (h : Attended due p) (hi : (p.threads i).stage ≠ .done) (hcovers : q.covers (p.threads i).key = true)
    (hold : ∀ side, (p.threads i).stage.waits side = false) (hnew : s.waits q.side = true)
    (hlooked : ∀ side, s.looked side = false)
    (hturns : p.idle ≠ [] → ∀ side, (p.threads i).stage.turns side ≤ s.turns side) :
    Attended due (((p.setSignal i false).setQueue (p.queue q ++ [i]) q).goto i s) := by
  have hthreads : (p.setSignal i false).threads = p.threads := rfl
  have hothers : ∀ j, j ≠ i → (p.setSignal i false).signal j = p.signal j := fun j hj => Function.update_of_ne hj _ _
  have hwaits : ∀ q', (p.room q').waits i = false := fun q' => by simp [Pool.room, hold]
  have hparked : (((p.setSignal i false).goto i s).room q).waits i = true := by
    rw [room_waits q hthreads, hcovers, hnew, Bool.and_true]
  rw [goto_setQueue]
  refine setQueue (h.goto_rest hi rfl rfl) h.closed
    ((h.queued q).park (room_sameBut q hthreads) (hwaits q) hparked) (fun q' hq' => ?_) fun q' => ?_
  · have hqueue := (h.queued q').other hothers (room_sameBut q' hthreads) (hwaits q') (waits_line hparked hq')
    cases q' <;> exact hqueue
  · have hidle : (p.setSignal i false).idleAt q' = p.idleAt q' := rfl
    refine h.served_goto hi hthreads rfl hothers (by simp [hlooked]) (fun _ => le_rfl) fun _ hsome => ?_
    have hle := hturns (fun hnil => hsome (Pool.idleAt_nil hnil q')) q'.side
    have hnone : s.work ((p.setSignal i false).signal i) q'.side = s.turns q'.side := by
      simp [Stage.work, Pool.setSignal]
    rw [Stage.work_of_not (hold _), hnone]
    omega

/-- A thread leaves its queue without a wake-up. -/
lemma unqueue (h : Attended due p) (hi : (p.threads i).stage ≠ .done) (hmem : i ∈ p.queue q)
    (hnew : ∀ side, s.waits side = false) (hturns : ∀ side, (p.threads i).stage.turns side ≤ s.turns side) :
    Attended due ((p.setQueue ((p.queue q).erase i) q).goto i s) := by
  obtain ⟨hwaits, hsignal⟩ := ((h.queued q).mem i).mp hmem
  have hleft : ∀ q', ((p.goto i s).room q').waits i = false := fun q' => by
    rw [room_waits q' rfl, hnew, Bool.and_false]
  rw [goto_setQueue]
  refine setQueue (h.goto_rest hi rfl rfl) h.closed
    ((h.queued q).leave (room_sameBut q rfl) (hleft q)) (fun q' hq' => ?_) fun q' => ?_
  · have hqueue := (h.queued q').other (fun _ _ => rfl) (room_sameBut q' rfl) (waits_line hwaits hq') (hleft q')
    cases q' <;> exact hqueue
  · refine h.served_goto hi rfl rfl (fun _ _ => rfl) (by simp [Stage.looked_of_not (hnew q'.side)])
      (fun _ => le_rfl) fun _ _ => ?_
    have hle := hturns q'.side
    rw [Stage.work_of_not (hnew _), Stage.work, hsignal]
    simpa using hle

lemma leave (h : Attended 0 p) (hi : (p.threads i).stage ≠ .done) (hcovers : q.covers (p.threads i).key = true)
    (hold : ∀ side, side ≠ q.side → (p.threads i).stage.waits side = false) (hnew : ∀ side, s.waits side = false)
    (hturns : ∀ side, (p.threads i).stage.turns side ≤ s.turns side) : Attended 0 ((p.leaveQueue i q).goto i s) := by
  unfold Pool.leaveQueue
  by_cases hmem : i ∈ p.queue q
  · rw [if_pos hmem]
    exact h.unqueue hi hmem hnew hturns
  · rw [if_neg hmem]
    by_cases hsignal : p.signal i = true
    · -- the wake-up it did not use goes to another
      rw [if_pos hsignal, goto_wakeOne]
      have htaken : Attended (Pi.single q 1) ((p.setSignal i false).goto i s) := by
        refine h.consume hi hsignal hnew (fun _ _ => Nat.zero_le _) fun q' hq' => ?_
        have hle := hturns q'.side
        by_cases heq : q' = q
        · subst heq
          rw [Stage.work, Pi.single_eq_same, Pi.zero_apply]
          split <;> omega
        · rw [Stage.work_of_not (hold _ fun hside => heq (Line.eq_of_side hq' hcovers hside)), Pi.single_eq_of_ne heq]
          exact Nat.add_le_add_left hle _
      exact htaken.wakeOne (fun q' hq' => (Pi.single_eq_of_ne hq' 1).le) (Pi.single_eq_same _ _).le
    · rw [if_neg hsignal]
      have hnone : ∀ side, (p.threads i).stage.waits side = false := by
        intro side
        by_cases hside : side = q.side
        · subst hside
          by_contra hwaits
          refine hmem (((h.queued q).mem i).mpr ⟨?_, by simpa using hsignal⟩)
          simpa [Pool.room, hcovers] using hwaits
        · exact hold side hside
      exact h.turn {} hi (List.Sublist.refl _) (fun side => (hnew side).trans (hnone side).symm)
        (fun q' _ => by simp [Stage.looked_of_not (hnew q'.side)])
        fun q' _ _ _ => Nat.add_le_add_left (hturns q'.side) _

/-- A backend comes back to the idle list, and its waiters are woken. -/
lemma release (h : Attended 0 p) {b : Backend} (now : Nat) (hi : (p.threads i).stage = .holding b)
    (hopen : p.closed = false) :
    Attended 0 (({ p with idle := p.idle ++ [{ b with lastUsed := now }] }.wakeFor b.key).goto i .done) := by
  generalize hp₁ : ({ p with idle := p.idle ++ [{ b with lastUsed := now }] } : Pool) = p₁
  have hthreads : p₁.threads = p.threads := by rw [← hp₁]
  have hstarted : p₁.started = p.started := by rw [← hp₁]
  have hsignal : p₁.signal = p.signal := by rw [← hp₁]
  have hidle : ∀ q, p₁.idleAt q = p.idleAt q + if q.covers b.key then 1 else 0 := by
    intro q
    simp [← hp₁, Pool.idleAt, List.countP_append, List.countP_singleton]
  have hne : (p.threads i).stage ≠ .done := by simp [hi]
  have hkept : Attended (fun q => if q.covers b.key then 1 else 0) (p₁.goto i .done) := by
    refine ⟨h.goto_rest hne hthreads hstarted, ?_, fun q => ?_, fun q => ?_⟩
    · intro hclosed
      rw [Pool.goto, ← hp₁, hopen] at hclosed
      cases hclosed
    · have hstay : ((p₁.goto i .done).room q).waits i = (p.room q).waits i := by
        cases q <;> simp [Pool.room, hi]
      have hqueue := (h.queued q).stay (room_sameBut q hthreads) hstay
      rw [← hsignal] at hqueue
      subst hp₁
      cases q <;> exact hqueue
    · refine h.served_goto hne hthreads hstarted (fun j _ => congrFun hsignal j) ?_ ?_ ?_
      · cases q <;> simp
      · exact fun _ => (hidle q).le
      · intro _ _
        have hnone : (p.threads i).stage.work (p.signal i) q.side = 0 := by
          rw [hi]
          cases q <;> simp [Stage.work]
        rw [hidle, hnone]
        exact Nat.le_add_right _ _
  have hwake : (p₁.wakeFor b.key).goto i .done = (p₁.goto i .done).wakeFor b.key :=
    (goto_wakeOne _ i .done .budget).trans (congrArg (Pool.wakeOne · .budget) (goto_wakeOne p₁ i .done (.slot b.key)))
  rw [hwake]
  exact hkept.wakeFor fun _ => le_rfl

/-- A new thread that does not wait; idle backends may go. -/
lemma spawn (h : Attended due p) {t : Thread} (hwaits : ∀ side, t.stage.waits side = false)
    (hq : SameQueues p p₁ := by exact {}) (hidle : p₁.idle.Sublist p.idle := by rfl) : Attended due (p₁.spawn t) := by
  have hother : ∀ j, j ≠ p.started → (p₁.spawn t).threads j = p.threads j := by
    intro j hj
    simp only [Pool.spawn, hq.started, hq.threads, Function.update_of_ne hj]
  have hself : (p₁.spawn t).threads p.started = t := by
    simp only [Pool.spawn, hq.started, Function.update_self]
  have hdone := h.rest p.started le_rfl
  have hrooms : ∀ q, Room.SameBut p.started (p.room q) ((p₁.spawn t).room q) := by
    intro q
    constructor <;> intro j hj <;> simp [Pool.room, hother j hj]
  have hnone : ∀ q, (p.room q).waits p.started = false := by
    intro q
    cases q <;> simp [Pool.room, hdone]
  refine ⟨?_, h.closed_of_sublist hq.closed hidle, fun q => ?_, fun q => ?_⟩
  · intro j hj
    have hj : p.started + 1 ≤ j := by rw [← hq.started]; exact hj
    rw [hother j (by omega)]
    exact h.rest j (by omega)
  · have hqueue := h.queued q
    rw [← hq.queue, ← hq.signal] at hqueue
    have hstay := hqueue.stay (hrooms q) (by rw [hnone q]; simp [Pool.room, hself, hwaits])
    cases q <;> exact hstay
  · have hserved := h.served q
    rw [← hq.signal] at hserved
    have hstarted : (p₁.spawn t).started = p.started + 1 := congrArg (· + 1) hq.started
    rw [hstarted]
    refine hserved.spawn hidle.countP_le (fun j hj => (hrooms q).waits j (by omega))
      (fun j hj => (hrooms q).turns j (by omega)) ?_
    intro j hj
    by_cases hnew : j = p.started
    · simp [Pool.room, hnew, hself, Stage.looked_of_not (hwaits q.side)] at hj
    · rwa [(hrooms q).looked j hnew] at hj

lemma close (h : Attended due p) : Attended due p.shut := by
  refine ⟨h.rest, fun _ => rfl, fun q => ⟨?_, fun i => ?_⟩, fun _ => Served.none _ _ _ _⟩
  · cases q <;> exact List.nodup_nil
  · have hnone : p.shut.queue q = [] := by cases q <;> rfl
    rw [hnone]
    simp only [List.not_mem_nil, false_iff, not_and]
    intro hwaits hsignal
    simp only [Pool.shut, Bool.or_eq_false_iff, decide_eq_false_iff_not] at hsignal
    have hmem : i ∈ p.queue q := ((h.queued q).mem i).mpr ⟨hwaits, hsignal.1.1⟩
    cases q with
    | slot key =>
      have hkey : (p.threads i).key = key := by
        simp only [Pool.room, Line.covers_slot, Bool.and_eq_true, decide_eq_true_eq] at hwaits
        exact hwaits.1
      exact hsignal.2 (hkey ▸ hmem)
    | budget => exact hsignal.1.2 hmem

end Attended

end PgShard.Pooler
