import PgShard.Vstream.Event

/-!
# The ackers of a stream

Acks are sent to a shard in the background: a request raises what is wanted of the shard and wakes its
loop, which sends until the pooler has confirmed what is wanted or a send did not get there.
-/

namespace PgShard.Vstream.Ackers

/-- Where the loop of a shard is: at its wake channel, about to read what is wanted, or at a send. -/
inductive Loop
  | waiting
  | checking
  | sending (lsn : Nat)
  deriving DecidableEq

/-- One shard. `ready` is the wake channel, and `owed` counts the requests that have not woken the loop
yet; `done` is what the pooler confirmed last. -/
structure Acker where
  want : Nat := 0
  loop : Option Loop := none
  ready : Bool := false
  owed : Nat := 0
  done : Nat := 0

/-- The locked part of a request and its wake are two steps, and so are the loop's. -/
inductive Event
  | request (lsn : Nat)
  | wake
  | take
  | read
  | answered (lsn : Nat) (confirmed : Option Nat)

namespace Acker

def request (a : Acker) (lsn : Nat) : Acker :=
  if lsn ≤ a.want then a
  else { a with want := lsn, loop := a.loop.getD .waiting, owed := a.owed + 1 }

/-- The answer to a send is an error, or the LSN the pooler confirmed. -/
def step (a : Acker) : Event → Acker
  | .request lsn => a.request lsn
  | .wake => if a.owed = 0 then a else { a with owed := a.owed - 1, ready := true }
  | .take =>
    if a.loop = some .waiting ∧ a.ready then { a with loop := some .checking, ready := false } else a
  | .read =>
    if a.loop = some .checking then
      { a with loop := some (if a.want ≤ a.done then .waiting else .sending a.want) }
    else a
  | .answered lsn none =>
    if a.loop = some (.sending lsn) then { a with loop := some .waiting } else a
  | .answered lsn (some c) =>
    if a.loop = some (.sending lsn) then
      { a with done := c, loop := some (if c < lsn then .waiting else .checking) }
    else a

/-- The loop is not started, or stays at its channel until another request wakes it. -/
def Idle (a : Acker) : Prop := (a.loop = none ∨ a.loop = some .waiting) ∧ a.ready = false ∧ a.owed = 0

/-- A send of the LSN or a higher one is in progress, or the loop is to read that it is wanted. -/
def Pending (a : Acker) (lsn : Nat) : Prop :=
  (∃ l, lsn ≤ l ∧ a.loop = some (.sending l)) ∨
    lsn ≤ a.want ∧ (a.loop = some .checking ∨ a.loop.isSome ∧ (a.ready ∨ 0 < a.owed))

variable {a : Acker} {lsn : Nat} {e : Event}

/-- What is pending ends with the answer to its send, or with the loop finding it confirmed. -/
lemma Pending.step (h : a.Pending lsn) (e : Event) :
    (a.step e).Pending lsn ∨ (∃ l c, lsn ≤ l ∧ e = .answered l c) ∨ lsn ≤ a.done := by
  unfold Pending at h ⊢
  fun_cases Acker.step a e <;> grind [Acker.request]

/-- The loop is started for the first request, and a request made during a send wakes it. -/
structure Inv (a : Acker) : Prop where
  started : a.loop = none → a.ready = false ∧ a.owed = 0
  raised : ∀ l, a.loop = some (.sending l) → l < a.want → a.ready ∨ 0 < a.owed

lemma Inv.step (h : a.Inv) (e : Event) : (a.step e).Inv := by
  obtain ⟨hstarted, hraised⟩ := h
  fun_cases Acker.step a e <;> constructor <;> grind [Acker.request]

/-- A loop whose sends all get there comes to rest with everything confirmed. -/
lemma rest_step (h : a.Idle → a.want ≤ a.done) (hfull : ∀ lsn r, e = .answered lsn r → ∃ c, r = some c ∧ lsn ≤ c) :
    (a.step e).Idle → (a.step e).want ≤ (a.step e).done := by
  unfold Idle at h ⊢
  fun_cases Acker.step a e <;> grind [Acker.request]

lemma want_step : (a.step e).want = a.want ∨ e = .request (a.step e).want := by
  fun_cases Acker.step a e <;> grind [Acker.request]

/-- A request is pending after it, unless nothing came of it and the loop is at rest. -/
lemma Inv.request (h : a.Inv) (hidle : a.Idle → a.want < lsn) : (a.request lsn).Pending lsn := by
  obtain ⟨hstarted, hraised⟩ := h
  unfold Idle at hidle
  unfold Pending Acker.request
  rcases hloop : a.loop with _ | _ | _ | l <;> grind

end Acker

def step (s : Shard → Acker) (e : Shard × Event) : Shard → Acker := Function.update s e.1 ((s e.1).step e.2)

def run (events : List (Shard × Event)) : Shard → Acker := events.foldl step fun _ => {}

lemma run_snoc (events : List (Shard × Event)) (e : Shard × Event) :
    run (events ++ [e]) = step (run events) e := List.foldl_append

/-- Every send to the shard was confirmed up to the LSN it asked for. -/
def Confirmed (events : List (Shard × Event)) (sh : Shard) : Prop :=
  ∀ lsn r, (sh, Event.answered lsn r) ∈ events → ∃ c, r = some c ∧ lsn ≤ c

/-- No request of the shard has asked for the LSN or a higher one. -/
def Rising (events : List (Shard × Event)) (sh : Shard) (lsn : Nat) : Prop :=
  ∀ l, (sh, Event.request l) ∈ events → l < lsn

variable {events : List (Shard × Event)} {sh : Shard} {lsn : Nat}

/-- What every step of the shard keeps holds of the shard after a run. -/
lemma run_keeps {P : Acker → Prop} (hinit : P {})
    (hstep : ∀ a e, (sh, e) ∈ events → P a → P (a.step e)) : P (run events sh) := by
  induction events using List.reverseRecOn with
  | nil => exact hinit
  | append_singleton earlier e ih =>
    obtain ⟨sh', e⟩ := e
    have hbefore := ih fun a e' he' => hstep a e' (List.mem_append_left _ he')
    rw [run_snoc]
    by_cases hsh : sh = sh'
    · subst hsh
      simpa [step] using hstep _ e (by simp) hbefore
    · simpa [step, hsh] using hbefore

lemma run_inv : (run events sh).Inv := run_keeps ⟨by simp, by simp⟩ fun _ e _ h => h.step e

lemma Confirmed.rest (h : Confirmed events sh) :
    (run events sh).Idle → (run events sh).want ≤ (run events sh).done := by
  apply run_keeps (P := fun a => a.Idle → a.want ≤ a.done) (fun _ => Nat.le_refl 0)
  intro a e he ha
  apply Acker.rest_step ha
  rintro l r rfl
  exact h l r he

lemma Rising.want_lt (h : Rising events sh lsn) (hlsn : 0 < lsn) : (run events sh).want < lsn := by
  apply run_keeps (P := fun a => a.want < lsn) hlsn
  intro a e he ha
  rcases a.want_step (e := e) with hw | hw
  · rwa [hw]
  · apply h
    rwa [← hw]

def failedSend (sh : Shard) (lsn : Nat) : List (Shard × Event) :=
  [(sh, .request lsn), (sh, .wake), (sh, .take), (sh, .read), (sh, .answered lsn none)]

/-- After the send of a requested LSN has failed, the request for it is dropped. -/
theorem repeated_request_dropped : (run (failedSend ⟨"default", 0⟩ 5) ⟨"default", 0⟩).done < 5 ∧
    ¬ (run (failedSend ⟨"default", 0⟩ 5 ++ [(⟨"default", 0⟩, .request 5)]) ⟨"default", 0⟩).Pending 5 := by
  simp [failedSend, run, step, Acker.step, Acker.request, Acker.Pending]

/-- A request beyond what the shard confirmed is pending after it, whatever happened before, where the
sends to the shard all got there or the request is for more than all before it. Failed sends and
repeated requests together lose one. -/
theorem request_kept_iff (failing repeating : Prop) :
    (∀ events sh lsn, (failing ∨ Confirmed events sh) → (repeating ∨ Rising events sh lsn) →
      (run events sh).done < lsn → (run (events ++ [(sh, .request lsn)]) sh).Pending lsn) ↔
    ¬ failing ∨ ¬ repeating := by
  constructor
  · intro hkept
    by_contra hboth
    obtain ⟨hfailing, hrepeating⟩ : failing ∧ repeating := by tauto
    have hlost := hkept (failedSend ⟨"", 0⟩ 5) ⟨"", 0⟩ 5 (.inl hfailing) (.inl hrepeating)
    simp [failedSend, run, step, Acker.step, Acker.request, Acker.Pending] at hlost
  · intro hone events sh lsn hsends hrequests hdone
    rw [run_snoc, step, Function.update_self]
    apply run_inv.request
    intro hidle
    rcases hone with hfailing | hrepeating
    · exact Nat.lt_of_le_of_lt ((hsends.resolve_left hfailing).rest hidle) hdone
    · exact (hrequests.resolve_left hrepeating).want_lt (Nat.zero_lt_of_lt hdone)

/-- Only LSNs that were requested of the shard are sent to it, and none beyond what is wanted. -/
theorem sends_requested (events : List (Shard × Event)) (sh : Shard) :
    let a := run events sh
    (a.want = 0 ∨ (sh, .request a.want) ∈ events) ∧
      ∀ l, a.loop = some (.sending l) → l ≤ a.want ∧ (sh, .request l) ∈ events := by
  apply run_keeps (P := fun a => (a.want = 0 ∨ (sh, .request a.want) ∈ events) ∧
    ∀ l, a.loop = some (.sending l) → l ≤ a.want ∧ (sh, .request l) ∈ events)
  · simp
  · intro a e he h
    rcases hloop : a.loop with _ | _ <;> fun_cases Acker.step a e <;> grind [Acker.request]

lemma done_step {a : Acker} {e : Event} : (a.step e).done = a.done ∨ ∃ l, e = .answered l (some (a.step e).done) := by
  fun_cases Acker.step a e <;> grind [Acker.request]

/-- A request that is pending stays so until a send of its LSN or a higher one is answered, or the LSN confirmed. -/
theorem pending_until_answered (later : List (Shard × Event)) (hdone : (run events sh).done < lsn)
    (hpending : (run events sh).Pending lsn)
    (hbelow : ∀ l c, (sh, .answered l c) ∈ later → l < lsn ∧ c.getD 0 < lsn) :
    (run (events ++ later) sh).Pending lsn := by
  suffices (run (events ++ later) sh).Pending lsn ∧ (run (events ++ later) sh).done < lsn from this.1
  induction later using List.reverseRecOn with
  | nil => simpa using ⟨hpending, hdone⟩
  | append_singleton later e ih =>
    obtain ⟨hpending, hdone⟩ := ih fun l c hl => hbelow l c (List.mem_append_left _ hl)
    obtain ⟨sh', e⟩ := e
    rw [← List.append_assoc, run_snoc]
    by_cases hsh : sh = sh'
    · subst hsh
      have := hpending.step e
      have := done_step (a := run (events ++ later) sh) (e := e)
      simp only [step, Function.update_self]
      grind
    · simpa [step, hsh] using ⟨hpending, hdone⟩

theorem pending_until_answered_woken :
    (run ([(⟨"default", 0⟩, .request 5)] ++ [(⟨"default", 0⟩, .wake), (⟨"default", 0⟩, .answered 4 none)])
      ⟨"default", 0⟩).Pending 5 :=
  pending_until_answered _ (by decide) (by simp [run, step, Acker.step, Acker.request, Acker.Pending]) (by simp)

end PgShard.Vstream.Ackers
