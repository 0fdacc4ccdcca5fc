import PgShard.TwoPhase.Reconcile

/-!
# What a clean reconciliation says

Every shard is reconciled with the decision log on its own, and the outcomes are put together into one report.
-/

namespace PgShard.Reconcile

open TwoPhase (Gid)

def Outcome.parts (shard : Int) (o : Outcome) : List String :=
  (o.contradictions.map fun gid =>
    "shard " ++ toString shard ++ ": " ++ gid ++ " is decided commit but is neither prepared nor committed") ++
  (o.unverifiable.map fun gid =>
    "shard " ++ toString shard ++ ": " ++ gid ++ " is decided commit and not prepared, and its transaction id's status is unavailable (frozen, unrecorded or in the future): the commit cannot be verified") ++
  o.unreadable.map fun gid =>
    "shard " ++ toString shard ++ ": " ++ gid ++ " records a decision this build does not recognise, so it is left prepared"

/-- The outcomes stand in the order of their shards. -/
def contradictions (byShard : List (Int × Outcome)) : Option String :=
  let parts := byShard.flatMap fun x => x.2.parts x.1
  if parts.isEmpty then none
  else some ("two-phase reconciliation contradictions: " ++ "; ".intercalate parts)

lemma contradictions_none {byShard : List (Int × Outcome)} (h : contradictions byShard = none) :
    ∀ x ∈ byShard, x.2.contradictions = [] ∧ x.2.unverifiable = [] ∧ x.2.unreadable = [] := by
  intro x hx
  have hparts : byShard.flatMap (fun x => x.2.parts x.1) = [] := by
    simp only [contradictions] at h
    split at h
    · rename_i hempty
      exact List.isEmpty_iff.mp hempty
    · cases h
  have hnone := List.flatMap_eq_nil_iff.mp hparts x hx
  simp only [Outcome.parts, List.append_eq_nil_iff, List.map_eq_nil_iff] at hnone
  exact ⟨hnone.1.1, hnone.1.2, hnone.2⟩

/-! ### Rows the participant does not hold -/

section

variable {p : Participant} {shard : Int} {prepared : List (Gid × String)} {st : Progress}

/-- A commit the participant does not hold was confirmed by it or is reported. -/
lemma reconcile_settled {decisions : List Decision} (hnd : (decisions.map (·.gid)).Nodup)
    (hp : p.prepared = .ok prepared) (h : reconcile p shard decisions = .ok st) {d : Decision} (hd : d ∈ decisions)
    (hinv : d.involves shard = true) (hfree : (prepared.lookup d.gid).isSome = false) (hcommit : d.state = .commit) :
    p.xactStatus (d.xid shard) = .ok .committed ∨ d.gid ∈ st.out.contradictions ∨ d.gid ∈ st.out.unverifiable := by
  obtain ⟨a, ha, -, hlisted⟩ := (reconcile_rows hnd hp h).1 d hd hinv
  simp only [rowAction, hfree, hcommit] at ha
  obtain ⟨status, hstatus, ha⟩ := bind_ok ha
  cases ha
  cases status with
  | committed => exact .inl hstatus
  | aborted | inProgress => exact .inr (.inl hlisted)
  | unavailable => exact .inr (.inr hlisted)

end

/-- The shards as they are when they are reconciled: what they answer, and what became of each transaction. -/
structure Cluster where
  participant : Int → Participant
  fate : Int → Gid → Fate

/-- A shard lists what it holds prepared, and says committed only of what it has committed. -/
structure Cluster.Honest (c : Cluster) (decisions : List Decision) : Prop where
  prepared : ∀ shard prepared, (c.participant shard).prepared = .ok prepared →
    ∀ gid, gid ∈ prepared.map (·.1) ↔ c.fate shard gid = .prepared
  committed : ∀ shard, ∀ d ∈ decisions, (c.participant shard).xactStatus (d.xid shard) = .ok .committed →
    c.fate shard d.gid ≠ .prepared → c.fate shard d.gid = .committed

/-- What became of a transaction after the shard was reconciled. -/
def Cluster.after (c : Cluster) (shard : Int) (st : Progress) (gid : Gid) : Fate :=
  if c.fate shard gid = .prepared then st.fate gid else c.fate shard gid

/-- Committed on all recorded participants, or on none. -/
def Decision.Agrees (d : Decision) (fate : Int → Gid → Fate) : Prop :=
  (∀ x ∈ d.participants, fate x.shard d.gid = .committed) ∨ ∀ x ∈ d.participants, fate x.shard d.gid ≠ .committed

section

variable {c : Cluster} {decisions : List Decision} {shard : Int} {st : Progress} {d : Decision}

lemma involves_of_mem {x : Participation} (hx : x ∈ d.participants) : d.involves x.shard = true := by
  simp only [Decision.involves, List.any_eq_true]
  exact ⟨x, hx, by simp⟩

lemma prepared_of_run (h : reconcile (c.participant shard) shard decisions = .ok st) :
    ∃ prepared, (c.participant shard).prepared = .ok prepared := by
  obtain ⟨prepared, hp, -⟩ := bind_ok h
  exact ⟨prepared, hp⟩

lemma mem_of_lookup {prepared : List (Gid × String)} {gid : Gid} (h : (prepared.lookup gid).isSome = true) :
    gid ∈ prepared.map (·.1) := by
  induction prepared with
  | nil => cases h
  | cons x prepared ih =>
    by_cases hx : gid = x.1
    · exact hx ▸ .head _
    · have hne : (gid == x.1) = false := by simpa using hx
      exact .tail _ (ih (by simpa [List.lookup, hne] using h))

variable (hnd : (decisions.map (·.gid)).Nodup) (hhonest : c.Honest decisions)
  (h : reconcile (c.participant shard) shard decisions = .ok st) (hd : d ∈ decisions) (hinv : d.involves shard = true)

include hnd hhonest h hd hinv

/-- What was prepared is what the row makes of it. -/
lemma after_of_held (hprep : c.fate shard d.gid = .prepared) :
    c.after shard st d.gid = (heldAction d).fate .prepared := by
  obtain ⟨prepared, hp⟩ := prepared_of_run h
  rw [Cluster.after, if_pos hprep]
  exact (reconcile_held hnd hp h hd ((hhonest.prepared shard prepared hp d.gid).mpr hprep) hinv).1

/-- A row that is not decided commit commits nothing. -/
lemma after_of_undecided (hstate : d.state ≠ .commit) :
    c.after shard st d.gid = .committed ↔ c.fate shard d.gid = .committed := by
  by_cases hprep : c.fate shard d.gid = .prepared
  · rw [after_of_held hnd hhonest h hd hinv hprep, hprep]
    cases hs : d.state <;> simp_all [heldAction, decide, State.known, Action.fate]
  · rw [Cluster.after, if_neg hprep]

/-- A commit that is not reported was made on every participant. -/
lemma after_of_commit (hstate : d.state = .commit) (hcontra : st.out.contradictions = [])
    (hunver : st.out.unverifiable = []) : c.after shard st d.gid = .committed := by
  by_cases hprep : c.fate shard d.gid = .prepared
  · rw [after_of_held hnd hhonest h hd hinv hprep, heldAction, hstate]
    rfl
  · rw [Cluster.after, if_neg hprep]
    obtain ⟨prepared, hp⟩ := prepared_of_run h
    have hfree : (prepared.lookup d.gid).isSome = false := by
      by_contra hheld
      have hmem := mem_of_lookup (Bool.eq_true_of_not_eq_false hheld)
      exact hprep ((hhonest.prepared shard prepared hp d.gid).mp hmem)
    rcases reconcile_settled hnd hp h hd hinv hfree hstate with hstatus | hlisted | hlisted
    · exact hhonest.committed shard d hd hstatus hprep
    · rw [hcontra] at hlisted
      cases hlisted
    · rw [hunver] at hlisted
      cases hlisted

end

/-- After a clean reconciliation of all participants every transaction of the log is committed on all of them or on
none exactly when that was so before of those that are not decided commit. -/
theorem clean_report_agrees_iff (c : Cluster) (decisions : List Decision) (hnd : (decisions.map (·.gid)).Nodup)
    (hhonest : c.Honest decisions) (shards : List Int)
    (hall : ∀ d ∈ decisions, ∀ x ∈ d.participants, x.shard ∈ shards) (st : Int → Progress)
    (hrun : ∀ shard ∈ shards, reconcile (c.participant shard) shard decisions = .ok (st shard))
    (hclean : contradictions (shards.map fun shard => (shard, (st shard).out)) = none) :
    (∀ d ∈ decisions, d.Agrees fun shard => c.after shard (st shard)) ↔
      ∀ d ∈ decisions, d.state ≠ .commit → d.Agrees c.fate := by
  have hundecided : ∀ d ∈ decisions, d.state ≠ .commit →
      ((d.Agrees fun shard => c.after shard (st shard)) ↔ d.Agrees c.fate) := by
    intro d hd hstate
    have hsame : ∀ x ∈ d.participants,
        (c.after x.shard (st x.shard) d.gid = .committed ↔ c.fate x.shard d.gid = .committed) := fun x hx =>
      after_of_undecided hnd hhonest (hrun _ (hall d hd x hx)) hd (involves_of_mem hx) hstate
    exact or_congr (forall₂_congr hsame) (forall₂_congr fun x hx => not_congr (hsame x hx))
  constructor
  · intro hagree d hd hstate
    exact (hundecided d hd hstate).mp (hagree d hd)
  · intro hbefore d hd
    by_cases hstate : d.state = .commit
    · refine .inl fun x hx => ?_
      have hshard := hall d hd x hx
      obtain ⟨hcontra, hunver, -⟩ := contradictions_none hclean _ (List.mem_map_of_mem hshard)
      exact after_of_commit hnd hhonest (hrun _ hshard) hd (involves_of_mem hx) hstate hcontra hunver
    · exact (hundecided d hd hstate).mpr (hbefore d hd hstate)

/-- Shard 1 has committed a transaction that shard 2 still holds prepared. -/
def halfDone : Cluster where
  participant shard :=
    { prepared := .ok (if shard = 2 then [("pgshard-c", "app")] else [])
      refuses := fun _ _ _ => none
      xactStatus := fun xid => .ok (if xid = "10" then .committed else .unavailable) }
  fate shard gid :=
    if gid = "pgshard-c" ∧ shard = 1 then .committed else if gid = "pgshard-c" ∧ shard = 2 then .prepared else .absent

def halfDoneRow (state : State) : Decision := ⟨"pgshard-c", state, [⟨1, "10"⟩, ⟨2, "20"⟩]⟩

def halfDoneProgress (state : State) (shard : Int) : Progress :=
  ((reconcile (halfDone.participant shard) shard [halfDoneRow state]).toOption).getD ⟨{}, fun _ => .absent⟩

lemma halfDone_honest (state : State) : halfDone.Honest [halfDoneRow state] where
  prepared shard prepared hp gid := by
    cases hp
    by_cases hshard : shard = 2
    · subst hshard
      simp [halfDone]
    · simp [halfDone, hshard]
      split <;> simp_all
  committed shard d hd hstatus hprep := by
    cases List.mem_singleton.mp hd
    by_cases h1 : shard = 1
    · subst h1
      simp [halfDone, halfDoneRow]
    · by_cases h2 : shard = 2
      · subst h2
        simp [halfDone, halfDoneRow] at hprep
      · have h1' : ¬(1 : Int) = shard := fun h => h1 h.symm
        have h2' : ¬(2 : Int) = shard := fun h => h2 h.symm
        simp [halfDone, halfDoneRow, Decision.xid, h1', h2'] at hstatus

lemma halfDone_run {state : State} (hstate : state = .commit ∨ state = .abort) : ∀ shard ∈ ([1, 2] : List Int),
    reconcile (halfDone.participant shard) shard [halfDoneRow state] = .ok (halfDoneProgress state shard) := by
  intro shard hs
  rcases List.mem_pair.mp hs with rfl | rfl <;> rcases hstate with rfl | rfl <;> rfl

theorem clean_report_agrees_of_commit :
    let c := halfDone
    let st := halfDoneProgress .commit
    contradictions ([1, 2].map fun shard => (shard, (st shard).out)) = none ∧
      ∀ d ∈ [halfDoneRow .commit], d.Agrees fun shard => c.after shard (st shard) :=
  ⟨rfl, (clean_report_agrees_iff halfDone [halfDoneRow .commit] (by simp) (halfDone_honest .commit) [1, 2]
    (by simp [halfDoneRow]) (halfDoneProgress .commit) (halfDone_run (.inl rfl)) rfl).mpr
    (by simp [halfDoneRow])⟩

/-- The log decides to abort. Shard 1 is not asked what it did, shard 2 rolls back, and the report is clean. -/
theorem clean_report_of_halves :
    let st := halfDoneProgress .abort
    (∀ shard ∈ [1, 2], reconcile (halfDone.participant shard) shard [halfDoneRow .abort] = .ok (st shard)) ∧
      contradictions ([1, 2].map fun shard => (shard, (st shard).out)) = none ∧
      halfDone.after 1 (st 1) "pgshard-c" = .committed ∧ halfDone.after 2 (st 2) "pgshard-c" = .rolledBack :=
  ⟨halfDone_run (.inr rfl), rfl, rfl, rfl⟩

end PgShard.Reconcile
