import PgShard.TwoPhase.Resolver

/-!
# What the coordinator's trace says about the databases

`Protocol` is about the trace alone: which statements the coordinator has sent
after which answers. `Facts` is what such a trace says about the ledger and the
participants; it survives everything the resolver and the network can do.
-/

namespace PgShard.TwoPhase

open Interleave

abbrev Sent := Trace Call Reply

def Made (T : Sent) (c : Call) : Prop := ∃ o, (c, o) ∈ T

def Issued (P : Set Call) (T : Sent) (c : Call) : Prop := c ∈ P ∨ Made T c

/-- The statement was answered, and not with an error. -/
def Heard (T : Sent) (c : Call) : Prop := ∃ r, (c, some r) ∈ T ∧ errorOf (some r) = none

/-- The answer told the client to run the transaction again. -/
def Retryable (o : Option Reply) : Prop := ∃ f, o = some (.fault f) ∧ (f.code = "40001" ∨ f.stale = true)

/-- The statements a router sends. -/
def RouterCall : Call → Prop
  | .on _ _ | .begin _ _ _ | .decideCommit _ | .decideAbort _ | .selectState _ | .delete _ => True
  | _ => False

section

variable (g : Gid) (W : ShardRef → Prop) (plain : Prop)

/-- The parts that have to commit: the planner's writers `W` and those whose
backend was found to have assigned a transaction id. -/
def IsWriter (T : Sent) (sh : ShardRef) : Prop := W sh ∨ (.on sh .hiddenWriteProbe, some (.value "t")) ∈ T

def Begun (T : Sent) : Prop := ∃ ps xs, Heard T (.begin g ps xs)

/-- The row was no longer preparing when the coordinator decided commit. -/
def Overtaken (T : Sent) : Prop := ∃ n, n ≠ 1 ∧ (Call.decideCommit g, some (Reply.rows n)) ∈ T

/-- The order in which the coordinator sends its statements. `plain` says
whether a plain COMMIT is among them at all. -/
structure Protocol (P : Set Call) (T : Sent) : Prop where
  router : ∀ c, Issued P T c → RouterCall c
  probe_first : ∀ sh, .on sh .hiddenWriteProbe ∈ P → ¬Issued P T (.decideCommit g)
  xid_writer : ∀ sh, Issued P T (.on sh .currentXactId) → IsWriter W T sh
  prepare_writer : ∀ sh, Issued P T (.on sh (.prepare g)) → IsWriter W T sh
  prepare_begun : ∀ sh, Issued P T (.on sh (.prepare g)) → Begun g T
  prepare_open : ∀ sh, Issued P T (.on sh (.prepare g)) → ∃ v, (.on sh .currentXactId, some (.value v)) ∈ T
  decide_once : .decideCommit g ∈ P → ¬Made T (.decideCommit g)
  decide_begun : Issued P T (.decideCommit g) → Begun g T
  decide_prepared : Issued P T (.decideCommit g) → ∀ sh, IsWriter W T sh → Heard T (.on sh (.prepare g))
  rollback_undecided : ∀ sh, Issued P T (.on sh (.rollbackPrepared g)) → Issued P T (.decideCommit g) → Overtaken g T
  commit_decided : ∀ sh, Issued P T (.on sh (.commitPrepared g)) → (.decideCommit g, some (.rows 1)) ∈ T
  abort_begun : Issued P T (.decideAbort g) → Begun g T
  delete_decided : Issued P T (.delete g) →
    (¬Issued P T (.decideCommit g) ∧ ∃ n, (.decideAbort g, some (.rows n)) ∈ T) ∨
    ((.decideCommit g, some (.rows 1)) ∈ T ∧ ∀ sh, IsWriter W T sh → Heard T (.on sh (.commitPrepared g)))
  plain_alone : ∀ sh, Issued P T (.on sh .commit) → plain ∧ ∀ ps xs, ¬Issued P T (.begin g ps xs)

/-- What the trace says about the databases. -/
structure Facts (T : Sent) (s : World) : Prop where
  begun_made : s.ledger ≠ .absent → ∃ ps xs, Made T (.begin g ps xs)
  begin_heard : Begun g T → s.ledger ≠ .absent
  verdict_made : s.ledger.verdict = some true → ∃ o, (.decideCommit g, o) ∈ T ∧ ∀ n, n ≠ 1 → o ≠ some (.rows n)
  commit_heard : (.decideCommit g, some (.rows 1)) ∈ T → s.ledger.verdict = some true
  abort_heard : Overtaken g T → s.ledger.verdict = some false
  abort_recorded : ∀ n, (.decideAbort g, some (.rows n)) ∈ T → s.ledger ≠ .preparing
  not_dropped : s.ledger ≠ .closed none
  closed_done : s.ledger = .closed (some true) → ∀ sh, s.xact sh ≠ .prepared
  xid_heard : ∀ sh v, (.on sh .currentXactId, some (.value v)) ∈ T → s.xact sh ≠ .failed ∧ s.xact sh ≠ .idle
  prepared_made : ∀ sh, s.xact sh = .prepared → Made T (.on sh (.prepare g))
  prepare_heard : ∀ sh, Heard T (.on sh (.prepare g)) → s.xact sh = .prepared ∨ s.xact sh = .committed ∨
      s.xact sh = .rolledBack ∧ (s.ledger.verdict = some false ∨ Made T (.on sh (.rollbackPrepared g)))
  committed_why : ∀ sh, s.xact sh = .committed →
    s.ledger.verdict = some true ∨ ∃ o, (.on sh .commit, o) ∈ T ∧ ¬Retryable o
  commitPrepared_heard : ∀ sh, Heard T (.on sh (.commitPrepared g)) → s.xact sh = .committed
  commit_heard_plain : ∀ sh, (.on sh .commit, some (.tag "COMMIT")) ∈ T ∨
    (.on sh .commit, some (.cut "COMMIT")) ∈ T → s.xact sh = .committed
  live_listed : ∀ sh, (s.xact sh).Live → sh ∈ s.topology
  probe_heard : ∀ sh v, (.on sh .hiddenWriteProbe, some (.value v)) ∈ T →
    v = "t" ∨ s.assigned sh = false ∨ Made T (.on sh .currentXactId)

structure Inv (P : Set Call) (T : Sent) (s : World) : Prop extends
  Protocol g W plain P T, Facts g T s

end

/-- What never goes back from `s` to a later world `s'`. -/
structure Later (s s' : World) : Prop where
  verdict : ∀ b, s.ledger.verdict = some b → s'.ledger.verdict = some b
  begun : s.ledger ≠ .absent → s'.ledger ≠ .absent
  live : ∀ sh, (s'.xact sh).Live → (s.xact sh).Live
  prepared : s.ledger.verdict = some true → ∀ sh, s'.xact sh = .prepared → s.xact sh = .prepared

lemma Later.refl (s : World) : Later s s := ⟨fun _ => id, id, fun _ => id, fun _ _ => id⟩

lemma Later.trans {s t u : World} (h : Later s t) (h' : Later t u) : Later s u where
  verdict b hb := h'.verdict b (h.verdict b hb)
  begun hb := h'.begun (h.begun hb)
  live sh hl := h.live sh (h'.live sh hl)
  prepared hv sh hp := h.prepared hv sh (h'.prepared (h.verdict _ hv) sh hp)

@[simp] lemma Xact.live_prepared : Xact.prepared.Live := .inr (.inr rfl)

@[simp] lemma Xact.not_live_committed : ¬Xact.committed.Live := by simp [Xact.Live]

@[simp] lemma Xact.not_live_rolledBack : ¬Xact.rolledBack.Live := by simp [Xact.Live]

variable {g : Gid} {db : String} {W : ShardRef → Prop} {plain : Prop}
variable {P : Set Call} {T : Sent} {s s' : World}

variable {sh : ShardRef}

/-- The facts hold of a later world. -/
abbrev Keeps (g : Gid) (T : Sent) (s s' : World) : Prop := Facts g T s' ∧ Later s s'

/-- A participant's transaction moves to `y`. -/
lemma Facts.setXact (h : Facts g T s) {sh : ShardRef} {y : Xact}
    (hold : s.xact sh ≠ .committed) (hopen : y ≠ .failed ∧ y ≠ .idle) (hlive : y.Live → (s.xact sh).Live)
    (hprep : y = .prepared → Made T (.on sh (.prepare g)) ∧ s.ledger.verdict ≠ some true)
    (hheard : Heard T (.on sh (.prepare g)) → y = .prepared ∨ y = .committed ∨ y = .rolledBack ∧
        (s.ledger.verdict = some false ∨ Made T (.on sh (.rollbackPrepared g))))
    (hcom : y = .committed → s.ledger.verdict = some true ∨ ∃ o, (.on sh .commit, o) ∈ T ∧ ¬Retryable o) :
    Keeps g T s (s.setXact sh y) := by
  have hxact : ∀ sh', (s.setXact sh y).xact sh' = if sh' = sh then y else s.xact sh' := fun _ => rfl
  refine ⟨{ h with
    closed_done := fun hc sh' hx => ?_
    xid_heard := fun sh' v hv => ?_
    prepared_made := fun sh' hx => ?_
    prepare_heard := fun sh' ht => ?_
    committed_why := fun sh' hx => ?_
    commitPrepared_heard := fun sh' ht => ?_
    commit_heard_plain := fun sh' ht => ?_
    live_listed := fun sh' hl => ?_ },
    fun _ => id, id, fun sh' hl => ?_, fun hv sh' hx => ?_⟩
  all_goals
    rw [hxact] at *
    by_cases hsh : sh' = sh
    all_goals simp only [hsh, if_true, if_false] at *
  · exact absurd (hc ▸ rfl) (hprep hx).2
  · exact h.closed_done hc sh' hx
  · exact hopen
  · exact h.xid_heard sh' v hv
  · exact (hprep hx).1
  · exact h.prepared_made sh' hx
  · exact hheard ht
  · exact h.prepare_heard sh' ht
  · exact hcom hx
  · exact h.committed_why sh' hx
  · exact absurd (h.commitPrepared_heard sh ht) hold
  · exact h.commitPrepared_heard sh' ht
  · exact absurd (h.commit_heard_plain sh ht) hold
  · exact h.commit_heard_plain sh' ht
  · exact h.live_listed sh (hlive hl)
  · exact h.live_listed sh' hl
  · exact hlive hl
  · exact hl
  · exact absurd hv (hprep hx).2
  · exact hx

/-- The row moves to `l`. -/
lemma Facts.setLedger (h : Facts g T s) {l : Ledger} (hbegun : l ≠ .absent) (hmade : ∃ ps xs, Made T (.begin g ps xs))
    (hverdict : ∀ b, s.ledger.verdict = some b → l.verdict = some b)
    (htrue : l.verdict = some true → ∃ o, (.decideCommit g, o) ∈ T ∧ ∀ n, n ≠ 1 → o ≠ some (.rows n))
    (habort : ∀ n, (.decideAbort g, some (.rows n)) ∈ T → l ≠ .preparing) (hdrop : l ≠ .closed none)
    (hclosed : l = .closed (some true) → ∀ sh, s.xact sh ≠ .prepared) : Keeps g T s { s with ledger := l } where
  right := ⟨hverdict, fun _ => hbegun, fun _ => id, fun _ _ => id⟩
  left := { h with
    begun_made := fun _ => hmade
    begin_heard := fun _ => hbegun
    verdict_made := htrue
    commit_heard := fun hc => hverdict _ (h.commit_heard hc)
    abort_heard := fun hc => hverdict _ (h.abort_heard hc)
    abort_recorded := habort
    not_dropped := hdrop
    closed_done := hclosed
    prepare_heard := fun sh ht => by
      rcases h.prepare_heard sh ht with hp | hc | ⟨hr, hwhy⟩
      · exact .inl hp
      · exact .inr (.inl hc)
      · exact .inr (.inr ⟨hr, hwhy.imp_left (hverdict _)⟩)
    committed_why := fun sh hx => (h.committed_why sh hx).imp_left (hverdict _) }

/-- Once the row says commit, every writer is prepared or committed. -/
lemma Inv.verdict_writers (h : Inv g W plain P T s) (hv : s.ledger.verdict = some true)
    (hw : IsWriter W T sh) : s.xact sh = .prepared ∨ s.xact sh = .committed := by
  obtain ⟨o, ho, -⟩ := h.verdict_made hv
  have hissued : Issued P T (.decideCommit g) := .inr ⟨o, ho⟩
  rcases h.prepare_heard sh (h.decide_prepared hissued sh hw) with hp | hc | ⟨-, hfalse | hback⟩
  · exact .inl hp
  · exact .inr hc
  · simp [hv] at hfalse
  · have := h.abort_heard (h.rollback_undecided sh (.inr hback) hissued)
    simp [hv] at this

lemma Facts.rollsBack (h : Facts g T s) (hx : s.xact sh = .active ∨ s.xact sh = .failed) :
    Keeps g T s (s.setXact sh .rolledBack) := by
  have hprep : ¬Heard T (.on sh (.prepare g)) := by
    intro ht
    rcases h.prepare_heard sh ht with hp | hc | ⟨hr, -⟩ <;> rcases hx with hx | hx <;> simp_all
  refine h.setXact ?_ (by simp) (by simp) (by simp) (fun ht => absurd ht hprep) (by simp)
  rcases hx with hx | hx <;> simp [hx]

lemma Inv.prepares (h : Inv g W plain P T s) (hx : s.xact sh = .active) (hmade : Made T (.on sh (.prepare g))) :
    Keeps g T s (s.setXact sh .prepared) := by
  have hundecided : s.ledger.verdict ≠ some true := by
    intro hv
    have := h.verdict_writers hv (h.prepare_writer sh (.inr hmade))
    simp [hx] at this
  exact h.toFacts.setXact (by simp [hx]) (by simp) (fun _ => .inl hx) (fun _ => ⟨hmade, hundecided⟩)
    (fun _ => .inl rfl) (by simp)

lemma Facts.commits (h : Facts g T s) (hx : s.xact sh = .prepared) (hv : s.ledger.verdict = some true) :
    Keeps g T s (s.setXact sh .committed) :=
  h.setXact (by simp [hx]) (by simp) (by simp) (by simp) (by simp) fun _ => .inl hv

lemma Facts.undoes (h : Facts g T s) (hx : s.xact sh = .prepared)
    (hwhy : s.ledger.verdict = some false ∨ Made T (.on sh (.rollbackPrepared g))) :
    Keeps g T s (s.setXact sh .rolledBack) :=
  h.setXact (by simp [hx]) (by simp) (by simp) (by simp) (fun _ => .inr (.inr ⟨rfl, hwhy⟩)) (by simp)

lemma Facts.commitsPlain (h : Facts g T s) (hx : s.xact sh = .active) (hmade : (.on sh .commit, none) ∈ T) :
    Keeps g T s (s.setXact sh .committed) :=
  h.setXact (by simp [hx]) (by simp) (by simp) (by simp) (by simp) fun _ => .inr ⟨none, hmade, by simp [Retryable]⟩

lemma Inv.opens (h : Inv g W plain P T s) (hl : s.ledger = .absent) {ps xs} (hmade : Made T (.begin g ps xs)) :
    Keeps g T s { s with ledger := .preparing } := by
  have hverdict : ∀ b, s.ledger.verdict = some b → Ledger.preparing.verdict = some b := by
    simp [hl, Ledger.verdict]
  refine h.toFacts.setLedger (by simp) ⟨ps, xs, hmade⟩ hverdict (by simp [Ledger.verdict])
    (fun n hn => ?_) (by simp) (by simp)
  exact absurd hl (h.begin_heard (h.abort_begun (.inr ⟨_, hn⟩)))

lemma Facts.decides (h : Facts g T s) (b : Bool) (hwhy : b = true → (.decideCommit g, none) ∈ T) :
    Keeps g T s { s with ledger := s.ledger.decide b } := by
  cases hl : s.ledger with
  | preparing =>
    have hverdict : ∀ b', s.ledger.verdict = some b' → (Ledger.decided b).verdict = some b' := by
      simp [hl, Ledger.verdict]
    simp only [Ledger.decide]
    refine h.setLedger (by simp) (h.begun_made (by simp [hl])) hverdict ?_ (by simp) (by simp) (by simp)
    intro hb
    exact ⟨none, hwhy (by simpa [Ledger.verdict] using hb), by simp⟩
  | absent | decided b' | closed v =>
    simp only [Ledger.decide, ← hl]
    exact ⟨h, .refl _⟩

lemma Facts.closes (h : Facts g T s) (hl : s.ledger ≠ .preparing)
    (hdone : s.ledger.verdict = some true → ∀ sh, s.xact sh ≠ .prepared) :
    Keeps g T s { s with ledger := s.ledger.delete } := by
  cases hs : s.ledger with
  | preparing => exact absurd hs hl
  | decided b =>
    have hverdict : ∀ b', s.ledger.verdict = some b' →
        (Ledger.closed (some b)).verdict = some b' := by simp [hs, Ledger.verdict]
    simp only [Ledger.delete]
    refine h.setLedger (by simp) (h.begun_made (by simp [hs])) hverdict ?_ (by simp) (by simp) ?_
    · intro hb
      exact h.verdict_made (by simpa [hs, Ledger.verdict] using hb)
    · intro hb
      exact hdone (by simpa [hs, Ledger.verdict] using hb)
  | absent | closed v =>
    simp only [Ledger.delete, ← hs]
    exact ⟨h, .refl _⟩

lemma Facts.assigns (h : Facts g T s) (hmade : Made T (.on sh .currentXactId)) : Keeps g T s (s.assign sh) := by
  refine ⟨{ h with probe_heard := fun sh' v hv => ?_ }, { Later.refl s with }⟩
  by_cases hsh : sh' = sh
  · exact .inr (.inr (hsh ▸ hmade))
  · simpa [World.assign, hsh] using h.probe_heard sh' v hv

end PgShard.TwoPhase
