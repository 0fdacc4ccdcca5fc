import Mathlib

/-!
# Waiters that are woken one at a time

Threads wait in a queue for something that comes in pieces. A waiter queues, looks, and sleeps until a
wake-up comes; whoever brings a piece takes one waiter off the queue and leaves it a wake-up. While a
waiter that has looked still sleeps, there are no more pieces than threads that are going to look again.
-/

namespace PgShard.Waiting

open Finset

/-- What the threads do about one thing they wait for. -/
structure Room where
  /-- The thread is between queueing and leaving and has not consumed a wake-up. -/
  waits : Nat → Bool
  /-- The thread has looked and found nothing. -/
  looked : Nat → Bool
  /-- How often the thread is going to look again without being woken. -/
  turns : Nat → Nat
  waits_of_looked : ∀ i, looked i = true → waits i = true

/-- Only one thread does something else. -/
structure Room.SameBut (i : Nat) (r r₁ : Room) : Prop where
  waits : ∀ j, j ≠ i → r₁.waits j = r.waits j
  looked : ∀ j, j ≠ i → r₁.looked j = r.looked j
  turns : ∀ j, j ≠ i → r₁.turns j = r.turns j

lemma Room.SameBut.refl (i : Nat) (r : Room) : Room.SameBut i r r := ⟨fun _ _ => rfl, fun _ _ => rfl, fun _ _ => rfl⟩

/-- The queue is the waiters without a wake-up. -/
structure Queued (r : Room) (signal : Nat → Bool) (queue : List Nat) : Prop where
  nodup : queue.Nodup
  mem : ∀ i, i ∈ queue ↔ r.waits i = true ∧ signal i = false

lemma sum_change {f g : Nat → Nat} {i n : Nat} (hi : i < n) (h : ∀ j, j ≠ i → f j = g j) :
    ∑ j ∈ range n, f j + g i = ∑ j ∈ range n, g j + f i := by
  have hmem : i ∈ range n := mem_range.mpr hi
  rw [← add_sum_erase _ _ hmem, ← add_sum_erase (range n) g hmem]
  have hrest : ∑ j ∈ (range n).erase i, f j = ∑ j ∈ (range n).erase i, g j :=
    sum_congr rfl fun j hj => h j (ne_of_mem_erase hj)
  rw [hrest]
  omega

namespace Queued

variable {r r₁ : Room} {signal : Nat → Bool} {queue : List Nat} {i : Nat}

section

variable (h : Queued r signal queue)

include h

/-- The thread is not concerned by this queue, before and after. -/
lemma other {signal₁ : Nat → Bool} (hsignal : ∀ j, j ≠ i → signal₁ j = signal j) (hr : Room.SameBut i r r₁)
    (hold : r.waits i = false) (hnew : r₁.waits i = false) : Queued r₁ signal₁ queue := by
  refine ⟨h.nodup, fun j => ?_⟩
  rw [h.mem]
  by_cases hj : j = i
  · subst hj
    simp [hold, hnew]
  · rw [hr.waits j hj, hsignal j hj]

lemma stay (hr : Room.SameBut i r r₁) (hi : r₁.waits i = r.waits i) : Queued r₁ signal queue := by
  refine ⟨h.nodup, fun j => ?_⟩
  by_cases hj : j = i
  · rw [hj, hi, h.mem]
  · rw [hr.waits j hj, h.mem]

lemma park (hr : Room.SameBut i r r₁) (hold : r.waits i = false) (hnew : r₁.waits i = true) :
    Queued r₁ (Function.update signal i false) (queue ++ [i]) := by
  have hi : i ∉ queue := by simp [h.mem, hold]
  refine ⟨?_, fun j => ?_⟩
  · refine List.nodup_append.mpr ⟨h.nodup, by simp, ?_⟩
    intro x hx y hy hxy
    obtain rfl := List.mem_singleton.mp hy
    exact hi (hxy ▸ hx)
  · by_cases hj : j = i
    · subst hj
      simp [hnew]
    · simp [hj, h.mem, hr.waits]

lemma leave (hr : Room.SameBut i r r₁) (hnew : r₁.waits i = false) : Queued r₁ signal (queue.erase i) := by
  refine ⟨h.nodup.erase i, fun j => ?_⟩
  rw [h.nodup.mem_erase_iff, h.mem]
  by_cases hj : j = i
  · subst hj
    simp [hnew]
  · simp [hj, hr.waits]

/-- The thread takes its wake-up. -/
lemma consume (hsignal : signal i = true) (hr : Room.SameBut i r r₁) (hnew : r₁.waits i = false) :
    Queued r₁ (Function.update signal i false) queue := by
  refine ⟨h.nodup, fun j => ?_⟩
  rw [h.mem]
  by_cases hj : j = i
  · subst hj
    simp [hnew, hsignal]
  · simp [hj, hr.waits]

end

lemma wake (h : Queued r signal (i :: queue)) : Queued r (Function.update signal i true) queue := by
  obtain ⟨hi, hnodup⟩ := List.nodup_cons.mp h.nodup
  refine ⟨hnodup, fun j => ?_⟩
  by_cases hj : j = i
  · subst hj
    simp [hi]
  · have := h.mem j
    simp only [List.mem_cons, hj, false_or] at this
    simp [hj, this]

lemma head (h : Queued r signal (i :: queue)) : r.waits i = true ∧ signal i = false := (h.mem i).mp List.mem_cons_self

end Queued

/-- How often the thread is going to look again. -/
def Room.work (r : Room) (signal : Nat → Bool) (i : Nat) : Nat :=
  r.turns i + if r.waits i = true ∧ signal i = true then 1 else 0

/-- If a waiter that has looked is still asleep, the `pieces` are at most `due` more than the threads
are going to look for. -/
def Served (r : Room) (signal : Nat → Bool) (threads pieces due : Nat) : Prop :=
  (∃ i, r.looked i = true ∧ signal i = false) → pieces ≤ ∑ i ∈ range threads, r.work signal i + due

namespace Served

variable {r r₁ : Room} {signal signal₁ : Nat → Bool} {queue : List Nat} {i n pieces pieces₁ due due₁ : Nat}

lemma mono (h : Served r signal n pieces due) (hdue : due ≤ due₁) : Served r signal n pieces due₁ :=
  fun hsleep => (h hsleep).trans (by omega)

lemma none (r : Room) (signal : Nat → Bool) (n due : Nat) : Served r signal n 0 due := fun _ => Nat.zero_le _

/-- Nobody is in the queue. -/
lemma empty (h : Queued r signal []) : Served r signal n pieces due := by
  rintro ⟨i, hlooked, hsignal⟩
  have hmem := (h.mem i).mpr ⟨r.waits_of_looked i hlooked, hsignal⟩
  exact absurd hmem List.not_mem_nil

/-- One thread goes on. -/
lemma change (h : Served r signal n pieces due) (hi : i < n)
    (hsignal : ∀ j, j ≠ i → signal₁ j = signal j) (hr : Room.SameBut i r r₁)
    (hlooks : r₁.looked i = true → signal₁ i = false → pieces₁ = 0 ∨ r.looked i = true ∧ signal i = false)
    (hcount : pieces₁ + due + r.work signal i ≤ pieces + due₁ + r₁.work signal₁ i) :
    Served r₁ signal₁ n pieces₁ due₁ := by
  rintro ⟨j, hj, hsleep⟩
  have hsum := sum_change (f := r₁.work signal₁) (g := r.work signal) hi fun j hj => by
    simp only [Room.work, hr.turns j hj, hr.waits j hj, hsignal j hj]
  by_cases hji : j = i
  · subst hji
    rcases hlooks hj hsleep with hzero | hold
    · omega
    · have := h ⟨j, hold⟩
      omega
  · rw [hr.looked j hji] at hj
    rw [hsignal j hji] at hsleep
    have := h ⟨j, hj, hsleep⟩
    omega

lemma wake (h : Served r signal n pieces (due + 1)) (hq : Queued r signal (i :: queue)) (hi : i < n) :
    Served r (Function.update signal i true) n pieces due := by
  obtain ⟨hwaits, hsignal⟩ := hq.head
  refine h.change hi (fun j hj => Function.update_of_ne hj _ _) (Room.SameBut.refl i r) ?_ ?_
  · simp
  · simp [Room.work, hwaits, hsignal]
    omega

/-- A new thread. -/
lemma spawn (h : Served r signal n pieces due) (hpieces : pieces₁ ≤ pieces)
    (hwaits : ∀ j, j < n → r₁.waits j = r.waits j) (hturns : ∀ j, j < n → r₁.turns j = r.turns j)
    (hlooked : ∀ j, r₁.looked j = true → r.looked j = true) : Served r₁ signal (n + 1) pieces₁ due := by
  rintro ⟨j, hj, hsleep⟩
  have hold := h ⟨j, hlooked j hj, hsleep⟩
  have hsum : ∑ j ∈ range n, r₁.work signal j = ∑ j ∈ range n, r.work signal j := by
    refine sum_congr rfl fun j hj => ?_
    simp only [Room.work, hturns j (mem_range.mp hj), hwaits j (mem_range.mp hj)]
  rw [sum_range_succ]
  omega

/-- A wake-up for another thing. -/
lemma other (h : Served r signal n pieces due) (hwaits : r.waits i = false) (b : Bool) :
    Served r (Function.update signal i b) n pieces due := by
  rintro ⟨j, hj, hsleep⟩
  have hji : j ≠ i := by
    rintro rfl
    rw [r.waits_of_looked j hj] at hwaits
    cases hwaits
  rw [Function.update_of_ne hji] at hsleep
  have hsum : ∑ j ∈ range n, r.work (Function.update signal i b) j = ∑ j ∈ range n, r.work signal j := by
    refine sum_congr rfl fun j _ => ?_
    by_cases hji : j = i
    · subst hji
      simp [Room.work, hwaits]
    · simp [Room.work, hji]
  rw [hsum]
  exact h ⟨j, hj, hsleep⟩

end Served

end PgShard.Waiting
