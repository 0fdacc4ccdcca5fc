import PgShard.Runs.Offence

/-!
# The write pause sweep (`internal/controller/pausesweep.go`)

A cutover claims the write pause of its sources in the catalog, raises it on each primary and lifts
it again. The sweep lifts the pauses whose workflow is gone or has ended: it lists them, and then
takes each shard in turn, the setting on the primary first and the claim in the catalog second. The
list is read once; neither of the two steps looks at the claim again.
-/

namespace PgShard.Controller

inductive WorkflowState where
  | pending
  | provisioning
  | running
  | paused
  | completed
  | failed
  | cancelled
  deriving DecidableEq

def WorkflowState.ended : WorkflowState → Bool
  | .completed => true
  | .failed => true
  | .cancelled => true
  | _ => false

/-- A call and its answer; one that fails may have taken effect all the same. -/
inductive Call where
  | ok
  | error (landed : Bool)

def Call.lands : Call → Bool
  | .ok => true
  | .error landed => landed

/-- The columns of `pgshard.shard_status` a write pause uses. -/
structure ShardStatus where
  writePausedBy : Option Nat
  writePausedAt : Option Nat
  deriving DecidableEq

/-- A pass of the sweep: the orphans it has not handled, and whether the first is unpaused. -/
structure Pass (S : Type) where
  orphans : List S
  unpaused : Bool

namespace Pass

variable {S : Type}

/-- An error leaves the shard to the next pass. -/
def unpause : Pass S → Call → Pass S
  | ⟨sh :: rest, false⟩, .ok => ⟨sh :: rest, true⟩
  | ⟨_ :: rest, false⟩, .error _ => ⟨rest, false⟩
  | p, _ => p

def clear : Pass S → Pass S
  | ⟨_ :: rest, true⟩ => ⟨rest, false⟩
  | p => p

/-- The shard whose setting a call resets, or whose claim it clears. -/
def lifts (p : Pass S) (unpaused : Bool) (c : Call) : Option S :=
  if p.unpaused = unpaused ∧ c.lands then p.orphans.head? else none

lemma unpause_subset (p : Pass S) (c : Call) : (p.unpause c).orphans ⊆ p.orphans := by
  unfold unpause
  split
  · exact List.Subset.refl _
  · exact List.subset_cons_self _ _
  · exact List.Subset.refl _

lemma clear_subset (p : Pass S) : p.clear.orphans ⊆ p.orphans := by
  unfold clear
  split
  · exact List.subset_cons_self _ _
  · exact List.Subset.refl _

lemma lifts_mem {p : Pass S} {unpaused : Bool} {c : Call} {sh : S}
    (h : p.lifts unpaused c = some sh) : sh ∈ p.orphans := by
  unfold lifts at h
  split at h
  · exact List.mem_of_mem_head? h
  · cases h

end Pass

/-- Workflows are numbered as they are created; a deleted one is `none`. Every controller has its
own sweep. -/
structure Pauses (S : Type) where
  workflows : List (Option WorkflowState)
  status : S → ShardStatus
  readOnly : S → Bool
  passes : Nat → Pass S

/-- What happens to the catalog, the primaries and the sweeps. The calls of a cutover come one by
one: `pauseSetClaimed` claims, sets each primary and records the instants; lifting, it resets the
primaries it finds claimed and drops the claim. -/
inductive Pausing (S : Type) where
  | create
  | transition (w : Nat) (state : WorkflowState)
  | delete (w : Nat)
  | claimPause (w : Nat) (ids : List S)
  | setReadOnly (sh : S) (on : Bool)
  | recordPauseInstants (w : Nat) (ids : List S) (instant : S → Nat)
  | dropPauseClaim (w : Nat) (ids : List S)
  | abandonPauseClaim (ids : List S)
  | orphans (i : Nat) (rows : List S)
  | unpause (i : Nat) (c : Call)
  | clear (i : Nat) (c : Call)
  | stop (i : Nat)

namespace Pauses

variable {S : Type} [DecidableEq S]

/-- The workflow exists and has not ended. -/
def live (s : Pauses S) (w : Nat) : Bool :=
  match s.workflows[w]? with
  | some (some state) => !state.ended
  | _ => false

/-- The shard's claim belongs to a workflow that has not ended. -/
def held (s : Pauses S) (sh : S) : Bool := (s.status sh).writePausedBy.any s.live

/-- The rows `orphans` selects. -/
def orphaned (s : Pauses S) (sh : S) : Bool := (s.status sh).writePausedBy.any fun w => !s.live w

/-- What a sweep lifts with this event. -/
def lifts (s : Pauses S) : Pausing S → Option S
  | .unpause i c => (s.passes i).lifts false c
  | .clear i c => (s.passes i).lifts true c
  | _ => none

/-! An event, table by table. -/

def nextWorkflows (s : Pauses S) : Pausing S → List (Option WorkflowState)
  | .create => s.workflows ++ [some .pending]
  | .transition w state =>
    -- every update is guarded by the state the workflow was loaded with, which is no final one
    if s.live w then s.workflows.set w (some state) else s.workflows
  | .delete w => s.workflows.set w none
  | _ => s.workflows

def nextStatus (s : Pauses S) (e : Pausing S) (sh : S) : ShardStatus :=
  let row := s.status sh
  match e with
  | .claimPause w ids =>
    if w < s.workflows.length ∧ sh ∈ ids ∧ (row.writePausedBy ≠ some w ∨ row.writePausedAt ≠ none) then
      ⟨some w, none⟩
    else row
  | .recordPauseInstants w ids instant =>
    if sh ∈ ids ∧ row.writePausedBy = some w then ⟨row.writePausedBy, some (instant sh)⟩ else row
  | .dropPauseClaim w ids => if sh ∈ ids ∧ row.writePausedBy = some w then ⟨none, none⟩ else row
  | .abandonPauseClaim ids => if sh ∈ ids ∧ row.writePausedBy ≠ none then ⟨none, none⟩ else row
  | .clear i c => if s.lifts (.clear i c) = some sh then ⟨none, none⟩ else row
  | _ => row

def nextReadOnly (s : Pauses S) (e : Pausing S) (sh : S) : Bool :=
  match e with
  | .setReadOnly sh' on => if sh' = sh then on else s.readOnly sh
  | .unpause i c => if s.lifts (.unpause i c) = some sh then false else s.readOnly sh
  | _ => s.readOnly sh

def nextPass (s : Pauses S) (e : Pausing S) (i : Nat) : Pass S :=
  let p := s.passes i
  match e with
  | .orphans j rows => if j = i ∧ p.orphans = [] then ⟨rows.filter s.orphaned, false⟩ else p
  | .unpause j c => if j = i then p.unpause c else p
  | .clear j _ => if j = i then p.clear else p
  | .stop j => if j = i then ⟨[], false⟩ else p
  | _ => p

def step (s : Pauses S) (e : Pausing S) : Pauses S :=
  ⟨s.nextWorkflows e, s.nextStatus e, s.nextReadOnly e, s.nextPass e⟩

def run (s : Pauses S) (events : List (Pausing S)) : Pauses S := events.foldl step s

variable {s : Pauses S} {e : Pausing S} {sh : S} {w i : Nat}

lemma length_step (s : Pauses S) (e : Pausing S) : s.workflows.length ≤ (s.step e).workflows.length := by
  cases e with
  | create => simp [step, nextWorkflows]
  | transition v state =>
    simp only [step, nextWorkflows]
    split
    · simp
    · exact .refl
  | delete v => simp [step, nextWorkflows]
  | _ => exact .refl

/-- A workflow that has ended does not come back. -/
lemma live_step (h : (s.step e).live w = true) (hw : w < s.workflows.length) : s.live w = true := by
  cases e with
  | create =>
    simp only [live, step, nextWorkflows, List.getElem?_append_left hw] at h
    exact h
  | transition v state =>
    by_cases hlive : s.live v = true
    · by_cases hv : v = w
      · exact hv ▸ hlive
      · rw [live, step, nextWorkflows, if_pos hlive, List.getElem?_set_ne hv] at h
        exact h
    · rw [live, step, nextWorkflows, if_neg hlive] at h
      exact h
  | delete v =>
    by_cases hv : v = w
    · subst hv
      simp [live, step, nextWorkflows, List.getElem?_set_self hw] at h
    · simp only [live, step, nextWorkflows, List.getElem?_set_ne hv] at h
      exact h
  | _ => exact h

/-- Only `claimPause` gives a shard a new claimant. -/
lemma claim_step (h : ((s.step e).status sh).writePausedBy = some w) : (s.status sh).writePausedBy = some w ∨
      ∃ ids, e = .claimPause w ids ∧ sh ∈ ids ∧ w < s.workflows.length := by
  cases e with
  | claimPause v ids =>
    simp only [step, nextStatus] at h
    split at h
    · rename_i hclaims
      cases h
      exact .inr ⟨ids, rfl, hclaims.2.1, hclaims.1⟩
    · exact .inl h
  | recordPauseInstants v ids instant | dropPauseClaim v ids | abandonPauseClaim ids | clear j c =>
    simp only [step, nextStatus] at h
    split at h
    · first | exact .inl h | cases h
    · exact .inl h
  | _ => exact .inl h

/-- A pass takes up the orphans of the moment, and then only gets on with them. -/
lemma passes_step (h : sh ∈ ((s.step e).passes i).orphans) :
    sh ∈ (s.passes i).orphans ∨ s.orphaned sh = true ∧ ∃ rows, e = .orphans i rows := by
  cases e with
  | orphans j rows =>
    simp only [step, nextPass] at h
    split at h
    · rename_i hstarts
      exact .inr ⟨(List.mem_filter.mp h).2, rows, by rw [hstarts.1]⟩
    · exact .inl h
  | unpause j c | clear j c | stop j =>
    simp only [step, nextPass] at h
    split at h
    · first | exact .inl (Pass.unpause_subset _ _ h) | exact .inl (Pass.clear_subset _ h) | cases h
    · exact .inl h
  | _ => exact .inl h

/-- Claims belong to workflows that have been created, and no shard a sweep has listed is held. -/
structure Spared (s : Pauses S) : Prop where
  known : ∀ sh w, (s.status sh).writePausedBy = some w → w < s.workflows.length
  free : ∀ i, ∀ sh ∈ (s.passes i).orphans, s.held sh = false

/-- A workflow that has not ended claims no shard a sweep has listed and not yet handled. -/
def KeepsOff (s : Pauses S) : Pausing S → Prop
  | .claimPause w ids => s.live w = true → ∀ i, ∀ sh ∈ (s.passes i).orphans, sh ∉ ids
  | _ => True

lemma not_held_of_orphaned (h : s.orphaned sh = true) : s.held sh = false := by
  unfold orphaned at h
  unfold held
  cases hw : (s.status sh).writePausedBy with
  | none => rfl
  | some w => simpa [hw] using h

lemma Spared.step (h : s.Spared) (hkeeps : s.KeepsOff e) : (s.step e).Spared where
  known sh w hw := by
    rcases claim_step hw with hold | ⟨-, -, -, hlength⟩
    · exact Nat.lt_of_lt_of_le (h.known sh w hold) (s.length_step e)
    · exact Nat.lt_of_lt_of_le hlength (s.length_step e)
  free i sh hsh := by
    have hfree : s.held sh = false := by
      rcases passes_step hsh with hold | ⟨hnew, -⟩
      · exact h.free i sh hold
      · exact not_held_of_orphaned hnew
    cases hw : ((s.step e).status sh).writePausedBy with
    | none => simp [held, hw]
    | some w =>
      simp only [held, hw, Option.any_some]
      by_contra hlive
      rw [Bool.not_eq_false] at hlive
      rcases claim_step hw with hold | ⟨ids, rfl, hmem, hlength⟩
      · have hbefore := live_step hlive (h.known sh w hold)
        simp [held, hold, hbefore] at hfree
      · -- a new claim, of a workflow that keeps off what is listed
        rcases passes_step hsh with hlisted | ⟨-, rows, hstarts⟩
        · exact hkeeps (live_step hlive hlength) i sh hlisted hmem
        · cases hstarts

lemma lifts_mem (h : s.lifts e = some sh) : ∃ i, sh ∈ (s.passes i).orphans := by
  cases e with
  | unpause i c => exact ⟨i, Pass.lifts_mem h⟩
  | clear i c => exact ⟨i, Pass.lifts_mem h⟩
  | _ => cases h

/-- From any state with no pass under way: while no live workflow claims a shard between its listing
and its handling, a sweep resets no setting and clears no claim of a shard that is held. -/
theorem sweep_lifts_only_orphans (s : Pauses S) (hidle : ∀ i, (s.passes i).orphans = [])
    (hknown : ∀ sh w, (s.status sh).writePausedBy = some w → w < s.workflows.length) (events : List (Pausing S))
    (hkeeps : ∀ earlier e, earlier ++ [e] <+: events → (s.run earlier).KeepsOff e)
    (earlier : List (Pausing S)) (e : Pausing S) (hpre : earlier ++ [e] <+: events) (sh : S)
    (hlifts : (s.run earlier).lifts e = some sh) : (s.run earlier).held sh = false := by
  have hstart : s.Spared := ⟨hknown, fun i sh hsh => by simp [hidle] at hsh⟩
  have hspared : (s.run earlier).Spared := by
    apply Runs.run_inv Pauses.step Spared (fun _ => True) KeepsOff (fun _ _ h _ hk => h.step hk) hstart
    · exact fun _ _ => trivial
    · exact fun before e' hbefore => hkeeps before e' (hbefore.trans ((List.prefix_append _ _).trans hpre))
  obtain ⟨i, hmem⟩ := lifts_mem hlifts
  exact hspared.free i sh hmem

/-- The first workflow has failed and left its pause on both shards. -/
def leftPaused : Pauses Bool := ⟨[some .failed], fun _ => ⟨some 0, some 0⟩, fun _ => true, fun _ => ⟨[], false⟩⟩

/-- A sweep frees one shard, and the next workflow claims it then. -/
theorem sweep_of_one_shard :
    let s := leftPaused.run [.orphans 0 [true], .unpause 0 .ok]
    s.lifts (.clear 0 .ok) = some true ∧ s.held true = false := by
  refine ⟨by decide, ?_⟩
  apply sweep_lifts_only_orphans leftPaused (fun _ => rfl) (fun _ w hw => by cases hw; decide)
    [.orphans 0 [true], .unpause 0 .ok, .clear 0 .ok] ?_ _ (.clear 0 .ok) (List.prefix_refl _) _ (by decide)
  intro earlier e hpre
  have hmem := hpre.subset (List.mem_append_right earlier (List.mem_singleton_self e))
  simp only [List.mem_cons, List.not_mem_nil, or_false] at hmem
  rcases hmem with rfl | rfl | rfl <;> trivial

/-- The sweep has listed a shard when a second workflow starts and pauses it: its setting is reset
and its claim cleared, though that workflow runs. -/
theorem sweep_lifts_live_pause :
    let s := leftPaused.run [.orphans 0 [true], .create, .transition 1 .running, .claimPause 1 [true],
      .setReadOnly true true, .recordPauseInstants 1 [true] fun _ => 1]
    s.lifts (.unpause 0 .ok) = some true ∧ s.held true = true ∧
      (s.step (.unpause 0 .ok)).lifts (.clear 0 .ok) = some true ∧
      (s.step (.unpause 0 .ok)).held true = true ∧
      (s.run [.unpause 0 .ok, .clear 0 .ok]).readOnly true = false ∧
      (s.run [.unpause 0 .ok, .clear 0 .ok]).status true = ⟨none, none⟩ := by
  decide

end Pauses

end PgShard.Controller
