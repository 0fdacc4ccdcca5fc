import Mathlib

/-!
# The fencing epoch

The agent keeps the last accepted epoch in memory, in a file of its own and in a copy inside PGDATA, which
clones and rewinds delete or replace. A write that fails, or during which the process dies, may have landed.
-/

namespace PgShard.Agent.Epoch

inductive Written
  | done
  | failed (landed : Bool)
  | crashed (landed : Bool)

inductive File
  | missing
  | corrupt
  | value (epoch : Nat)

/-- The epoch a file gives, and whether the file is there. -/
def readEpochFile : File → Option (Nat × Bool)
  | .missing => some (0, false)
  | .corrupt => none
  | .value epoch => some (epoch, true)

def File.write (f : File) (epoch : Nat) : Written → File
  | .done | .failed true | .crashed true => .value epoch
  | _ => f

/-- The store of a running agent. Its terms are numbered; `handed` are the epochs of the contexts handed
out, each with the term it is cancelled with. -/
structure EpochStore where
  cur : Nat
  term : Nat := 0
  cancelled : List Nat := []
  handed : List (Nat × Nat) := []
  accepted : List Nat := []

def EpochStore.Term (s : EpochStore) (epoch : Nat) : EpochStore :=
  if epoch ≠ s.cur then s else { s with handed := (epoch, s.term) :: s.handed }

/-- The term of an accepted epoch begins, and the one before it is cancelled. -/
def EpochStore.begin (s : EpochStore) (epoch : Nat) : EpochStore :=
  { s with
    cur := epoch
    cancelled := s.term :: s.cancelled
    term := s.term + 1
    accepted := epoch :: s.accepted }

/-- A member: its two files, its agent while one runs, and the epochs it has accepted, the last first. -/
structure Member where
  configured : File
  legacy : File
  store : Option EpochStore := none
  history : List Nat := []

/-- How the calls of the file system end: reads and directories, and the two writes. A copy that is left
out because PGDATA is not initialised counts as one that failed. -/
structure Luck where
  ready : Bool
  file : Written
  copy : Written

inductive Event
  | start (l : Luck)
  | crash
  | accept (epoch : Nat) (l : Luck)
  | term (epoch : Nat)
  | replace (legacy : File)

namespace Member

variable (m : Member)

/-- The higher of the two files wins and is carried into the configured one. -/
def openEpochStoreAt (l : Luck) : Member :=
  match readEpochFile m.configured, readEpochFile m.legacy, l.ready with
  | some (configured, found), some (old, _), true =>
    let cur := max configured old
    if configured < cur ∨ found = false ∧ 0 < cur then
      let m := { m with configured := m.configured.write cur l.file }
      match l.file with
      | .done => { m with store := some { cur := cur } }
      | _ => m
    else { m with store := some { cur := cur } }
  | _, _, _ => m

def accept (s : EpochStore) (epoch : Nat) (l : Luck) : Member :=
  if epoch ≤ s.cur ∨ l.ready = false then m
  else
    let m := { m with configured := m.configured.write epoch l.file }
    match l.file, l.copy with
    | .failed _, _ => m
    | .crashed _, _ => { m with store := none }
    | .done, .crashed _ => { m with legacy := m.legacy.write epoch l.copy, store := none }
    | .done, _ =>
      { m with
        legacy := m.legacy.write epoch l.copy
        store := some (s.begin epoch)
        history := epoch :: m.history }

/-- One agent runs at a time. -/
def step (m : Member) : Event → Member
  | .start l => if m.store.isSome then m else m.openEpochStoreAt l
  | .crash => { m with store := none }
  | .accept epoch l => (m.store.map fun s => m.accept s epoch l).getD m
  | .term epoch => { m with store := m.store.map (·.Term epoch) }
  | .replace legacy => { m with legacy := legacy }

def run (events : List Event) : Member := events.foldl step m

end Member

/-- A context belongs to the current epoch, or was cancelled with its term. -/
structure EpochStore.Valid (history : List Nat) (s : EpochStore) : Prop where
  history : ∀ e ∈ history, e ≤ s.cur
  accepted : ∀ e ∈ s.accepted, e ≤ s.cur
  handed : ∀ x ∈ s.handed, x = (s.cur, s.term) ∨ x.2 ∈ s.cancelled

def File.Covers (f : File) (history : List Nat) : Prop := ∀ x, readEpochFile f = some x → ∀ e ∈ history, e ≤ x.1

structure Member.Inv (m : Member) : Prop where
  rising : m.history.Pairwise (· > ·)
  covers : m.configured.Covers m.history
  valid : ∀ s, m.store = some s → s.Valid m.history

variable {m : Member} {s : EpochStore} {epoch : Nat} {history : List Nat}

lemma EpochStore.Valid.term (h : s.Valid history) (epoch : Nat) : (s.Term epoch).Valid history := by
  unfold Term
  split
  · exact h
  · refine { h with handed := fun x hx => ?_ }
    rcases List.mem_cons.mp hx with rfl | hx
    · left
      simp_all
    · exact h.handed x hx

lemma EpochStore.Valid.begin (h : s.Valid history) (hlt : s.cur < epoch) :
    (s.begin epoch).Valid (epoch :: history) where
  history e he := by
    rcases List.mem_cons.mp he with rfl | he
    · exact .refl
    · exact Nat.le_of_lt (Nat.lt_of_le_of_lt (h.history e he) hlt)
  accepted e he := by
    rcases List.mem_cons.mp he with rfl | he
    · exact .refl
    · exact Nat.le_of_lt (Nat.lt_of_le_of_lt (h.accepted e he) hlt)
  handed x hx := by
    rcases h.handed x hx with rfl | hx
    · exact .inr List.mem_cons_self
    · exact .inr (List.mem_cons_of_mem _ hx)

lemma File.Covers.write {f : File} (h : f.Covers history) (hle : ∀ e ∈ history, e ≤ epoch) (w : Written) :
    (f.write epoch w).Covers history := by
  unfold File.write
  split
  · rintro x ⟨⟩
    exact hle
  · rintro x ⟨⟩
    exact hle
  · rintro x ⟨⟩
    exact hle
  · exact h

lemma Member.Inv.open (h : m.Inv) (l : Luck) : (m.openEpochStoreAt l).Inv := by
  unfold openEpochStoreAt
  split
  · rename_i configured found old _ hfile _ _
    have hle : ∀ e ∈ m.history, e ≤ max configured old :=
      fun e he => Nat.le_trans (h.covers _ hfile e he) (Nat.le_max_left _ _)
    have hcarried := h.covers.write hle l.file
    have hvalid : ({ cur := max configured old } : EpochStore).Valid m.history := ⟨hle, nofun, nofun⟩
    dsimp only
    split
    · split
      · exact ⟨h.rising, hcarried, by rintro s ⟨⟩; exact hvalid⟩
      · exact ⟨h.rising, hcarried, h.valid⟩
    · exact ⟨h.rising, h.covers, by rintro s ⟨⟩; exact hvalid⟩
  · exact h

lemma Member.Inv.accept (h : m.Inv) (hs : m.store = some s) (epoch : Nat) (l : Luck) : (m.accept s epoch l).Inv := by
  unfold Member.accept
  split
  · exact h
  · rename_i hnew
    have hvalid := h.valid s hs
    have hlt : s.cur < epoch := by omega
    have hle : ∀ e ∈ m.history, e ≤ epoch := fun e he => Nat.le_trans (hvalid.history e he) (Nat.le_of_lt hlt)
    have hwritten := h.covers.write hle l.file
    dsimp only
    split
    · exact ⟨h.rising, hwritten, h.valid⟩
    · exact ⟨h.rising, hwritten, nofun⟩
    · exact ⟨h.rising, hwritten, nofun⟩
    · refine ⟨List.pairwise_cons.mpr ⟨fun e he => ?_, h.rising⟩, ?_, ?_⟩
      · exact Nat.lt_of_le_of_lt (hvalid.history e he) hlt
      · rename_i hfile _
        rw [hfile]
        rintro x ⟨⟩ e he
        exact (hvalid.begin hlt).history e he
      · rintro s' ⟨⟩
        exact hvalid.begin hlt

lemma Member.Inv.step (h : m.Inv) (e : Event) : (m.step e).Inv := by
  cases e with
  | start l =>
    by_cases hs : m.store.isSome
    · simpa [Member.step, hs] using h
    · simpa [Member.step, hs] using h.open l
  | crash => exact ⟨h.rising, h.covers, nofun⟩
  | accept epoch l =>
    cases hs : m.store with
    | none => simpa [Member.step, hs] using h
    | some s => simpa [Member.step, hs] using h.accept hs epoch l
  | term epoch =>
    refine ⟨h.rising, h.covers, fun s hs => ?_⟩
    obtain ⟨s', hs', rfl⟩ := Option.map_eq_some_iff.mp hs
    exact (h.valid s' hs').term epoch
  | replace legacy => exact { h with }

/-- Whatever fails, wherever the agent dies and whatever is put in place of the copy in PGDATA: the epochs
that were accepted rise over the whole history, and a context of an epoch is cancelled once a later one
was accepted by the same agent. -/
theorem epochs_rise (configured legacy : File) (events : List Event) :
    let m := Member.run { configured, legacy } events
    m.history.Pairwise (· > ·) ∧
      ∀ s, m.store = some s → ∀ x ∈ s.handed, ∀ e ∈ s.accepted, x.1 < e → x.2 ∈ s.cancelled := by
  intro m
  have hinv : m.Inv := by
    induction events using List.reverseRecOn with
    | nil => exact ⟨.nil, fun _ _ => nofun, nofun⟩
    | append_singleton earlier e ih =>
      have hrun : m = (Member.run { configured, legacy } earlier).step e := List.foldl_append
      exact hrun ▸ ih.step e
  refine ⟨hinv.rising, fun s hs x hx e he hlt => ?_⟩
  have hvalid := hinv.valid s hs
  rcases hvalid.handed x hx with rfl | hx
  · exact absurd (hvalid.accepted e he) (Nat.not_le_of_lt hlt)
  · exact hx

lemma Member.Inv.run {m : Member} (h : m.Inv) (events : List Event) : (m.run events).Inv :=
  List.foldlRecOn events _ h fun _ h e _ => h.step e

/-- A restart finds no epoch below an accepted one: the configured file is there and holds at least as much once an
epoch was accepted, and so does the agent that runs. -/
theorem epochs_survive (configured legacy : File) (events : List Event) :
    let m := Member.run { configured, legacy } events
    (∀ x, readEpochFile m.configured = some x → ∀ e ∈ m.history, e ≤ x.1) ∧
      ∀ s, m.store = some s → ∀ e ∈ m.history, e ≤ s.cur := by
  intro m
  have h : m.Inv := .run (m := { configured, legacy }) ⟨.nil, fun _ _ => nofun, nofun⟩ events
  exact ⟨h.covers, fun s hs => (h.valid s hs).history⟩

end PgShard.Agent.Epoch
