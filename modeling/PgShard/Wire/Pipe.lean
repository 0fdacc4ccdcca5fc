import Mathlib

/-!
# A server at the end of a pipe

Messages are written in order and taken up one at a time, each with a change of the server's
state and a list of replies; a reader gets the replies in order. A message is taken up only when
the reader wants a reply and none is left, and `stream` and `after` say where that is going:
every reply still to come, and the state once every message has been taken up.
-/

namespace PgShard.Wire

structure Pipe (σ μ ρ : Type) where
  state : σ
  queue : List μ
  out : List ρ

namespace Pipe

variable {σ μ ρ : Type} (process : σ → μ → σ × List ρ)

def settle (s : σ) (ms : List μ) : σ := ms.foldl (fun s m => (process s m).1) s

def replies (s : σ) : List μ → List ρ
  | [] => []
  | m :: rest => (process s m).2 ++ replies (process s m).1 rest

def after (p : Pipe σ μ ρ) : σ := settle process p.state p.queue

def stream (p : Pipe σ μ ρ) : List ρ := p.out ++ replies process p.state p.queue

def put (p : Pipe σ μ ρ) (m : μ) : Pipe σ μ ρ := { p with queue := p.queue ++ [m] }

/-- Messages are taken up until one is answered. -/
def takeUp (s : σ) : List μ → Option (ρ × Pipe σ μ ρ)
  | [] => none
  | m :: rest =>
    match (process s m).2 with
    | [] => takeUp (process s m).1 rest
    | r :: out => some (r, ⟨(process s m).1, rest, out⟩)

def receive (p : Pipe σ μ ρ) : Option (ρ × Pipe σ μ ρ) :=
  match p.out with
  | r :: out => some (r, { p with out := out })
  | [] => takeUp process p.state p.queue

theorem takeUp_eq_none {s : σ} {ms : List μ} : takeUp process s ms = none ↔ replies process s ms = [] := by
  induction ms generalizing s with
  | nil => simp [takeUp, replies]
  | cons m rest ih =>
    cases hm : (process s m).2 with
    | nil => simp [takeUp, replies, hm, ih]
    | cons r out => simp [takeUp, replies, hm]

theorem replies_append (s : σ) (ms ns : List μ) :
    replies process s (ms ++ ns) = replies process s ms ++ replies process (settle process s ms) ns := by
  induction ms generalizing s with
  | nil => rfl
  | cons m rest ih => simp [replies, settle, ih]

/-- The messages that were taken up for a reply. -/
theorem takeUp_eq_some {s : σ} {ms : List μ} {r : ρ} {p : Pipe σ μ ρ} (h : takeUp process s ms = some (r, p)) :
    ∃ taken, ms = taken ++ p.queue ∧ settle process s taken = p.state ∧
      replies process s taken = r :: p.out := by
  induction ms generalizing s with
  | nil => cases h
  | cons m rest ih =>
    cases hm : (process s m).2 with
    | nil =>
      simp only [takeUp, hm] at h
      obtain ⟨taken, rfl, hs, hr⟩ := ih h
      exact ⟨m :: taken, rfl, hs, by simp [replies, hm, hr]⟩
    | cons r' out =>
      simp only [takeUp, hm, Option.some.injEq, Prod.mk.injEq] at h
      obtain ⟨rfl, rfl⟩ := h
      exact ⟨[m], rfl, rfl, by simp [replies, hm]⟩

theorem receive_eq_none {p : Pipe σ μ ρ} : p.receive process = none ↔ p.stream process = [] := by
  obtain ⟨s, ms, out⟩ := p
  cases out with
  | nil => simp [receive, stream, takeUp_eq_none]
  | cons r out => simp [receive, stream]

theorem receive_eq_some {p q : Pipe σ μ ρ} {r : ρ} (h : p.receive process = some (r, q)) :
    p.stream process = r :: q.stream process ∧ p.after process = q.after process := by
  obtain ⟨s, ms, out⟩ := p
  cases out with
  | nil =>
    obtain ⟨taken, rfl, hs, hr⟩ := takeUp_eq_some process h
    exact ⟨by simp [stream, replies_append, hs, hr], by simp [after, settle, ← hs]⟩
  | cons r' out =>
    simp only [receive, Option.some.injEq, Prod.mk.injEq] at h
    obtain ⟨rfl, rfl⟩ := h
    exact ⟨rfl, rfl⟩

theorem after_put (p : Pipe σ μ ρ) (m : μ) : (p.put m).after process = (process (p.after process) m).1 := by
  simp [after, put, settle]

theorem stream_put (p : Pipe σ μ ρ) (m : μ) :
    (p.put m).stream process = p.stream process ++ (process (p.after process) m).2 := by
  simp [stream, put, after, replies_append, replies]

/-- The last message written is going to be answered. -/
def Answers (p : Pipe σ μ ρ) : Prop := ∀ ms m, p.queue = ms ++ [m] → (process (settle process p.state ms) m).2 ≠ []

theorem Answers.receive {p q : Pipe σ μ ρ} {r : ρ} (h : p.Answers process)
    (hr : p.receive process = some (r, q)) : q.Answers process := by
  obtain ⟨s, ms, out⟩ := p
  cases out with
  | nil =>
    obtain ⟨taken, rfl, hs, -⟩ := takeUp_eq_some process hr
    intro ms m hq
    have hlast := h (taken ++ ms) m (by rw [List.append_assoc, ← hq])
    simpa [settle, ← hs] using hlast
  | cons r' out =>
    simp only [Pipe.receive, Option.some.injEq, Prod.mk.injEq] at hr
    obtain ⟨-, rfl⟩ := hr
    exact h

/-- Once its answer has been read, nothing is left. -/
theorem Answers.drained {p : Pipe σ μ ρ} (h : p.Answers process) (hs : p.stream process = []) :
    p.queue = [] ∧ p.out = [] := by
  obtain ⟨hout, hreplies⟩ := List.append_eq_nil_iff.mp hs
  refine ⟨?_, hout⟩
  rcases List.eq_nil_or_concat p.queue with hnil | ⟨ms, m, hq⟩
  · exact hnil
  · rw [List.concat_eq_append] at hq
    rw [hq, replies_append] at hreplies
    have hlast := (List.append_eq_nil_iff.mp hreplies).2
    rw [replies, replies, List.append_nil] at hlast
    exact absurd hlast (h ms m hq)

end Pipe

end PgShard.Wire
