import PgShard.TwoPhase.Passes

/-!
# The coordinator keeps the protocol

Round by round: what the trace has to hold before a statement is sent, and what
the branches of `endTxn` know of the trace when they send it.
-/

namespace PgShard.TwoPhase

open Interleave

section

variable (g : Gid) (W : ShardRef → Prop) (plain : Prop)

/-- What lets the coordinator send a statement after the trace `T`. -/
def Licence (T : Sent) : Call → Prop
  | .on _ .rollback | .on _ .showPrepared | .selectState _ => True
  | .on _ .hiddenWriteProbe => ¬Made T (.decideCommit g)
  | .on sh .currentXactId => IsWriter W T sh
  | .on sh (.prepare _) => IsWriter W T sh ∧ Begun g T ∧ ∃ v, (.on sh .currentXactId, some (.value v)) ∈ T
  | .on _ (.rollbackPrepared _) =>
      Made T (.decideCommit g) → Overtaken g T
  | .on _ (.commitPrepared _) => (.decideCommit g, some (.rows 1)) ∈ T
  | .on _ .commit => plain ∧ ∀ ps xs, ¬Made T (.begin g ps xs)
  | .begin _ _ _ => ∀ sh, ¬Made T (.on sh .commit)
  | .decideCommit _ => ¬Made T (.decideCommit g) ∧ Begun g T ∧ (∀ sh, IsWriter W T sh → Heard T (.on sh (.prepare g))) ∧
      (∀ sh, ¬Made T (.on sh (.rollbackPrepared g))) ∧ ¬Made T (.delete g)
  | .decideAbort _ => Begun g T
  | .delete _ =>
      (¬Made T (.decideCommit g) ∧ ∃ n, (.decideAbort g, some (.rows n)) ∈ T) ∨
      ((.decideCommit g, some (.rows 1)) ∈ T ∧ ∀ sh, IsWriter W T sh → Heard T (.on sh (.commitPrepared g)))
  | _ => False

/-- Statements that are never sent next to others. -/
def Solo : Call → Prop
  | .begin _ _ _ | .decideCommit _ | .on _ .commit => True
  | _ => False

end

variable {g : Gid} {db : String} {W : ShardRef → Prop} {plain : Prop} {T : Sent}

lemma Protocol.empty : Protocol g W plain ∅ ∅ := by
  have hno : ∀ c, ¬Issued ∅ (∅ : Sent) c := by simp [Issued, Made]
  constructor <;> intros <;> first | exact absurd ‹_› (hno _) | simp_all

variable {cs : List Call} {os : List (Option Reply)} {Q : List (Option Reply) → Sent → Prop}
  {c : Call} {k : Nat} {parts : List Part} {sql : Sql}

lemma Protocol.issue (h : Protocol g W plain ∅ T) (hl : ∀ c ∈ cs, Licence g W plain T c)
    (hsolo : ∀ c ∈ cs, Solo c → cs = [c]) : Protocol g W plain {c | c ∈ cs} T := by
  have made : ∀ {c}, Made T c → Issued ∅ T c := .inr
  have issued : ∀ {c} {R : Prop}, (c ∈ cs → R) → (Issued ∅ T c → R) → Issued {c | c ∈ cs} T c → R :=
    fun hnew hold hc => hc.elim hnew fun hm => hold (made hm)
  have alone : ∀ {c d}, c ∈ cs → Solo c → d ∈ cs → d = c := by
    intro c d hc hs hd
    simpa [hsolo c hc hs] using hd
  constructor
  case router =>
    rintro c (hc | hm)
    · have := hl c hc
      cases c <;> trivial
    · exact h.router c (made hm)
  case probe_first =>
    rintro sh hsh (hd | hd)
    · cases alone hd trivial hsh
    · exact hl _ hsh hd
  case xid_writer => exact fun sh => issued (hl _) (h.xid_writer sh)
  case prepare_writer => exact fun sh => issued (fun hc => (hl _ hc).1) (h.prepare_writer sh)
  case prepare_begun => exact fun sh => issued (fun hc => (hl _ hc).2.1) (h.prepare_begun sh)
  case prepare_open => exact fun sh => issued (fun hc => (hl _ hc).2.2) (h.prepare_open sh)
  case decide_once => exact fun hd => (hl _ hd).1
  case decide_begun => exact issued (fun hc => (hl _ hc).2.1) h.decide_begun
  case decide_prepared => exact issued (fun hc => (hl _ hc).2.2.1) h.decide_prepared
  case rollback_undecided =>
    rintro sh (hb | hb) (hd | hd)
    · cases alone hd trivial hb
    · exact hl _ hb hd
    · exact absurd hb ((hl _ hd).2.2.2.1 sh)
    · exact h.rollback_undecided sh (made hb) (made hd)
  case commit_decided => exact fun sh => issued (hl _) (h.commit_decided sh)
  case abort_begun => exact issued (hl _) h.abort_begun
  case delete_decided =>
    rintro (hc | hm)
    · refine (hl _ hc).imp_left (And.imp_left fun hno => ?_)
      rintro (hd | hd)
      · cases alone hd trivial hc
      · exact hno hd
    · refine (h.delete_decided (made hm)).imp_left (And.imp_left fun hno => ?_)
      rintro (hd | hd)
      · exact (hl _ hd).2.2.2.2 hm
      · exact hno (made hd)
  case plain_alone =>
    rintro sh (hc | hm)
    · obtain ⟨hp, hb⟩ := hl _ hc
      refine ⟨hp, fun ps xs hx => ?_⟩
      rcases hx with hx | hx
      · cases alone hc trivial hx
      · exact hb ps xs hx
    · obtain ⟨hp, hb⟩ := h.plain_alone sh (made hm)
      refine ⟨hp, fun ps xs hx => ?_⟩
      rcases hx with hx | hx
      · exact hl _ hx sh hm
      · exact hb ps xs (made hx)

/-- The trace after a round. -/
def after (T : Sent) (cs : List Call) (os : List (Option Reply)) : Sent := T ∪ {x | x ∈ cs.zip os}

lemma Protocol.round (h : Protocol g W plain {c | c ∈ cs} T) (hnd : cs.Nodup)
    (hlen : os.length = cs.length) : Protocol g W plain ∅ (after T cs os) := by
  induction cs generalizing T os with
  | nil => simpa [after] using h
  | cons c cs ih =>
    cases os with
    | nil => simp at hlen
    | cons o os =>
      have hrest : ({d | d ∈ c :: cs} \ {c} : Set Call) = {d | d ∈ cs} := by
        ext d
        have hc := (List.nodup_cons.mp hnd).1
        simp only [List.mem_cons, Set.mem_sdiff, Set.mem_ofPred_eq, Set.mem_singleton_iff]
        constructor
        · rintro ⟨rfl | hd, hne⟩
          · exact absurd rfl hne
          · exact hd
        · exact fun hd => ⟨.inr hd, fun heq => hc (heq ▸ hd)⟩
      have hafter : after T (c :: cs) (o :: os) = after (insert (c, o) T) cs os := by
        ext x
        simp only [after, Set.mem_union, Set.mem_ofPred_eq, List.zip_cons_cons, List.mem_cons, Set.mem_insert_iff]
        tauto
      rw [hafter]
      refine ih ?_ (List.nodup_cons.mp hnd).2 (by simpa using hlen)
      exact hrest ▸ h.outcome List.mem_cons_self o

/-- The part of the commit a statement belongs to. -/
def stage : Call → Nat
  | .on _ .rollback | .on _ .hiddenWriteProbe | .on _ .showPrepared => 0
  | .on _ .currentXactId => 1
  | .begin _ _ _ => 2
  | .on _ (.prepare _) => 3
  | .decideCommit _ => 5
  | .on _ .commit => 6
  | _ => 4

def Below (k : Nat) (T : Sent) : Prop := ∀ c, Made T c → stage c < k

lemma below_empty : Below k ∅ := by simp [Below, Made]

/-- The protocol was kept, and nothing of the parts from `k` on was sent. -/
structure At (g : Gid) (W : ShardRef → Prop) (plain : Prop) (k : Nat) (T : Sent) : Prop where
  protocol : Protocol g W plain ∅ T
  below : Below k T

lemma At.mono {k' : Nat} (h : At g W plain k T) (hk : k ≤ k') : At g W plain k' T :=
  ⟨h.protocol, fun c hc => Nat.lt_of_lt_of_le (h.below c hc) hk⟩

lemma At.not_made (h : At g W plain k T) (hc : k.ble (stage c) = true) : ¬Made T c :=
  fun hm => absurd (h.below c hm) (Nat.le_of_ble_eq_true hc).not_gt

/-- The statements were sent after the trace `T`, and `T'` is the trace once they have their outcomes. -/
structure Round (T : Sent) (cs : List Call) (os : List (Option Reply)) (T' : Sent) : Prop where
  length : os.length = cs.length
  trace : T' = after T cs os

section

variable {T' : Sent} (h : Round T cs os T')

include h

lemma Round.subset : T ⊆ T' := h.trace ▸ Set.subset_union_left

lemma Round.at {k' : Nat} (hP : Protocol g W plain ∅ T') (hT : Below k T) (hk : k ≤ k')
    (hcs : ∀ c ∈ cs, stage c < k') : At g W plain k' T' := by
  refine ⟨hP, ?_⟩
  rw [h.trace]
  rintro c ⟨o, ho | ho⟩
  · exact Nat.lt_of_lt_of_le (hT c ⟨o, ho⟩) hk
  · exact hcs c (List.of_mem_zip ho).1

/-- Once the probes are over, who is a writer is settled. -/
lemma Round.isWriter (hcs : ∀ sh, .on sh .hiddenWriteProbe ∉ cs) (sh : ShardRef) :
    IsWriter W T' sh ↔ IsWriter W T sh := by
  refine or_congr_right ⟨?_, fun hw => h.subset hw⟩
  rw [h.trace]
  rintro (hw | hw)
  · exact hw
  · exact absurd (List.of_mem_zip hw).1 (hcs sh)

lemma Round.mem (hc : c ∈ cs) : ∃ o ∈ os, (c, o) ∈ T' := by
  have hfst : (cs.zip os).map Prod.fst = cs := List.map_fst_zip h.length.ge
  rw [← hfst] at hc
  obtain ⟨⟨c', o⟩, hmem, rfl⟩ := List.mem_map.mp hc
  exact ⟨o, (List.of_mem_zip hmem).2, h.trace ▸ .inr hmem⟩

lemma Round.heard (hok : firstError os = none) (hc : c ∈ cs) : Heard T' c := by
  obtain ⟨o, ho, hmem⟩ := h.mem hc
  have herr : errorOf o = none := List.findSome?_eq_none_iff.mp hok o ho
  cases o with
  | none => simp [errorOf] at herr
  | some r => exact ⟨r, hmem, herr⟩

end

lemma Round.single {T' : Sent} {o : Option Reply} (h : Round T [c] [o] T') : (c, o) ∈ T' := by
  obtain ⟨o', ho, hmem⟩ := h.mem List.mem_cons_self
  exact List.mem_singleton.mp ho ▸ hmem

variable {A : Type}

lemma follows_each (k' : Nat) (h : At g W plain k T) (hnd : cs.Nodup) (hl : ∀ c ∈ cs, Licence g W plain T c)
    (hsolo : ∀ c ∈ cs, Solo c → cs = [c]) (hcs : ∀ c ∈ cs, stage c < k')
    (hQ : ∀ os T', Round T cs os T' → At g W plain k' T' → Q os T') (hk : k ≤ k') :
    (discipline g db W plain).Follows Q (Prog.each cs) T := by
  have hissue := h.protocol.issue hl hsolo
  refine ⟨hnd, hissue, fun os hlen => ?_⟩
  have hround : Round T cs os (after T cs os) := ⟨hlen, rfl⟩
  exact hQ os _ hround (hround.at (hissue.round hnd hlen) h.below hk hcs)

lemma follows_call {Q : Option Reply → Sent → Prop} (k' : Nat) (h : At g W plain k T)
    (hk : k.ble k' = true) (hc : (stage c).blt k' = true) (hl : Licence g W plain T c)
    (hQ : ∀ o T', Round T [c] [o] T' → At g W plain k' T' → Q o T') :
    (discipline g db W plain).Follows Q (Prog.call c) T := by
  have heach : (discipline g db W plain).Follows (fun os T' => ∀ o, os = [o] → Q o T') (Prog.each [c]) T :=
    follows_each k' h (by simp) (by simpa using hl) (by simp) (List.forall_mem_singleton.mpr (Nat.le_of_ble_eq_true hc))
      (fun os T' hround h' o ho => hQ o T' (ho ▸ hround) h') (Nat.le_of_ble_eq_true hk)
  refine ⟨heach.1, heach.2.1, fun os hlen => ?_⟩
  obtain ⟨o, rfl⟩ := List.length_eq_one_iff.mp hlen
  exact heach.2.2 [o] hlen o rfl

lemma queryAll_ok {vs : List String} (h : queryAll os = .ok vs) : os = vs.map fun v => some (.value v) := by
  induction os generalizing vs with
  | nil => cases h; rfl
  | cons o os ih =>
    simp only [queryAll, bind, Except.bind, pure, Except.pure] at h
    split at h
    · cases h
    · rename_i v hv
      split at h
      · cases h
      · rename_i vs' hvs
        cases h
        have ho : o = some (.value v) := by
          unfold queryOne at hv
          split at hv
          · cases hv; rfl
          · cases hv
        rw [ho, ih hvs, List.map_cons]

lemma Round.value {T' : Sent} {vs : List String} (h : Round T cs os T') (hvs : queryAll os = .ok vs)
    (hc : c ∈ cs) : ∃ v, (c, some (.value v)) ∈ T' := by
  obtain ⟨o, ho, hmem⟩ := h.mem hc
  rw [queryAll_ok hvs] at ho
  obtain ⟨v, -, rfl⟩ := List.mem_map.mp ho
  exact ⟨v, hmem⟩

def callsOn (parts : List Part) (sql : Sql) : List Call := parts.map fun p => .on p.shard sql

lemma mem_callsOn : c ∈ callsOn parts sql ↔ ∃ sh ∈ parts.map (·.shard), c = .on sh sql := by
  simp [callsOn, eq_comm]

lemma on_mem_callsOn {sh : ShardRef} (h : sh ∈ parts.map (·.shard)) : .on sh sql ∈ callsOn parts sql :=
  mem_callsOn.mpr ⟨sh, h, rfl⟩

lemma Round.writers {T' : Sent} (h : Round T (callsOn parts sql) os T') (hsql : sql ≠ .hiddenWriteProbe)
    (sh : ShardRef) : IsWriter W T' sh ↔ IsWriter W T sh := by
  refine h.isWriter (fun sh' hmem => ?_) sh
  obtain ⟨_, -, heq⟩ := mem_callsOn.mp hmem
  exact hsql (Call.on.inj heq).2.symm

lemma follows_runEach (k' : Nat) (h : At g W plain k T) (hk : k.ble k' = true)
    (hstage : ∀ sh, (stage (.on sh sql)).blt k' = true) (hsql : sql ≠ .commit) (hnd : (parts.map (·.shard)).Nodup)
    (hl : ∀ sh ∈ parts.map (·.shard), Licence g W plain T (.on sh sql))
    (hQ : ∀ os T', Round T (callsOn parts sql) os T' → At g W plain k' T' → Q os T') :
    (discipline g db W plain).Follows Q (runEach parts sql) T := by
  refine follows_each k' h ?_ ?_ ?_ ?_ hQ (Nat.le_of_ble_eq_true hk)
  · have := hnd.map (f := (Call.on · sql)) fun a b hab => (Call.on.inj hab).1
    simpa [Function.comp_def] using this
  all_goals
    intro c hc
    obtain ⟨sh, hsh, rfl⟩ := mem_callsOn.mp hc
  · exact hl sh hsh
  · intro hs
    cases sql <;> first | exact absurd rfl hsql | exact absurd hs id
  · exact Nat.le_of_ble_eq_true (hstage sh)

/-- An error that tells the client to run the transaction again. -/
def Fault.Retry (f : Fault) : Prop := f.code = "40001" ∨ f.stale = true

/-- What the trace says once two-phase commit has answered. -/
structure TwoPhaseEnd (g : Gid) (a : Answer) (T : Sent) : Prop where
  no_plain : ∀ sh, ¬Made T (.on sh .commit)
  sent : a.sent ≠ none → (.decideCommit g, some (.rows 1)) ∈ T
  retry : ∀ f, a.err = some f → f.Retry → Made T (.decideCommit g) → Overtaken g T

lemma TwoPhaseEnd.undecided {f : Fault} (h : At g W plain k T) (hk : k ≤ 5) :
    TwoPhaseEnd g ⟨none, some f⟩ T where
  no_plain _ := (h.mono hk).not_made rfl
  sent h := absurd rfl h
  retry _ _ _ hm := absurd hm ((h.mono hk).not_made rfl)

lemma follows_logAbort {Q : Bool → Sent → Prop} (h : At g W plain 5 T) (hb : Begun g T)
    (hQ : ∀ recorded T', At g W plain 5 T' →
      (recorded = true → ∃ n, (.decideAbort g, some (.rows n)) ∈ T') → Q recorded T') :
    (discipline g db W plain).Follows Q (logAbort g) T := by
  unfold logAbort
  refine Discipline.Follows.bind (follows_call 5 h rfl rfl hb fun o T₁ hround h₁ => ?_)
  split
  · refine Discipline.Follows.bind (follows_call 5 h₁ rfl rfl trivial fun o' T₂ hround' h₂ => ?_)
    split
    · exact hQ _ _ h₂ fun _ => ⟨0, hround'.subset hround.single⟩
    · exact hQ _ _ h₂ (by simp)
  · exact hQ _ _ h₁ fun _ => ⟨_, hround.single⟩
  · exact hQ _ _ h₁ (by simp)

lemma follows_abandon {prepares : List (Part × Option Reply)} (h : At g W plain 4 T) (hb : Begun g T)
    (hnd : (prepares.map (·.1.shard)).Nodup) :
    (discipline g db W plain).Follows (fun _ T => At g W plain 5 T) (abandon g prepares) T := by
  unfold abandon
  have hno : ¬Made T (.decideCommit g) := h.not_made rfl
  refine Discipline.Follows.bind (follows_each 5 h ?_ ?_ ?_ ?_ (fun os T₁ hround h₁ => ?_) (by omega))
  · refine List.Nodup.of_map (fun c => match c with | .on sh _ => some sh | _ => none) ?_
    simpa [Function.comp_def, List.map_map] using
      hnd.map (f := some) (fun _ _ => Option.some.inj)
  · intro c hc
    obtain ⟨⟨p, o⟩, -, rfl⟩ := List.mem_map.mp hc
    dsimp only
    split
    · exact fun hm => absurd hm hno
    · trivial
  · intro c hc hs
    obtain ⟨⟨p, o⟩, -, rfl⟩ := List.mem_map.mp hc
    dsimp only at hs
    split at hs <;> exact absurd hs id
  · intro c hc
    obtain ⟨⟨p, o⟩, -, rfl⟩ := List.mem_map.mp hc
    dsimp only
    split <;> exact of_decide_eq_true rfl
  · refine Discipline.Follows.bind (follows_logAbort h₁ (hb.mono hround.subset) ?_)
    intro recorded T₂ h₂ hrec
    split
    · rename_i hcond
      have hlic : Licence g W plain T₂ (.delete g) := .inl ⟨h₂.not_made rfl, hrec (by simp_all)⟩
      exact Discipline.Follows.bind (follows_call 5 h₂ rfl rfl hlic fun o T₃ _ h₃ => h₃)
    · exact h₂

section

variable {writers : List Part}

lemma follows_finishCommit (h : At g W plain 6 T) (hyes : (.decideCommit g, some (.rows 1)) ∈ T)
    (hW : ∀ sh, IsWriter W T sh → sh ∈ writers.map (·.shard)) (hnd : (writers.map (·.shard)).Nodup) :
    (discipline g db W plain).Follows (TwoPhaseEnd g) (finishCommit g writers) T := by
  have hend : ∀ T', At g W plain 6 T' → T ⊆ T' → TwoPhaseEnd g ⟨some "COMMIT", none⟩ T' := fun T' h' hsub =>
    ⟨fun _ => h'.not_made rfl, fun _ => hsub hyes, by simp⟩
  unfold finishCommit
  refine Discipline.Follows.bind (follows_runEach 6 h rfl (fun _ => rfl) nofun
    (hnd.sublist (.map _ (List.take_sublist 1 _))) (fun _ _ => hyes) fun first T₁ hfirst h₁ => ?_)
  refine Discipline.Follows.bind (follows_runEach 6 h₁ rfl (fun _ => rfl) nofun
    (hnd.sublist (.map _ (List.drop_sublist 1 _))) (fun _ _ => hfirst.subset hyes) fun rest T₂ hrest h₂ => ?_)
  have hsub : T ⊆ T₂ := hfirst.subset.trans hrest.subset
  split
  · rename_i hnone
    have herr : firstError first = none ∧ firstError rest = none := by
      simpa [firstError, List.findSome?_append] using hnone
    have hall : ∀ sh, IsWriter W T₂ sh → Heard T₂ (.on sh (.commitPrepared g)) := by
      intro sh hw
      rw [hrest.writers nofun, hfirst.writers nofun] at hw
      have hsh : sh ∈ (writers.take 1 ++ writers.drop 1).map (·.shard) := by
        rw [List.take_append_drop]
        exact hW sh hw
      rw [List.map_append, List.mem_append] at hsh
      rcases hsh with hsh | hsh
      · exact (hfirst.heard herr.1 (on_mem_callsOn hsh)).mono hrest.subset
      · exact hrest.heard herr.2 (on_mem_callsOn hsh)
    exact Discipline.Follows.bind (follows_call 6 h₂ rfl rfl (.inr ⟨hsub hyes, hall⟩) fun o T₃ hround h₃ =>
      hend T₃ h₃ (hsub.trans hround.subset))
  · exact hend T₂ h₂ hsub

lemma follows_logCommit {Q : Option Bool → Sent → Prop} (h : At g W plain 5 T)
    (hl : Licence g W plain T (.decideCommit g))
    (hQ : ∀ decided T', At g W plain 6 T' → (∀ sh, IsWriter W T' sh ↔ IsWriter W T sh) →
      (decided = some true → (.decideCommit g, some (.rows 1)) ∈ T') →
      (decided = some false → Overtaken g T') → Q decided T') :
    (discipline g db W plain).Follows Q (logCommit g) T := by
  unfold logCommit
  refine Discipline.Follows.bind (follows_call 6 h rfl rfl hl fun o T' hround h' => ?_)
  have hW := hround.isWriter (W := W) (by simp)
  split
  · rename_i n
    refine hQ _ _ h' hW (fun hn => ?_) (fun hn => ⟨n, by simpa using hn, hround.single⟩)
    have : n = 1 := by simpa using hn
    exact this ▸ hround.single
  · exact hQ _ _ h' hW (by simp) (by simp)

lemma follows_decideOutcome (h : At g W plain 4 T) (hb : Begun g T)
    (hW : ∀ sh, IsWriter W T sh ↔ sh ∈ writers.map (·.shard))
    (hprep : ∀ sh ∈ writers.map (·.shard), Heard T (.on sh (.prepare g))) (hnd : (writers.map (·.shard)).Nodup) :
    (discipline g db W plain).Follows (TwoPhaseEnd g) (decideOutcome g writers) T := by
  have hlic : Licence g W plain T (.decideCommit g) :=
    ⟨h.not_made rfl, hb, fun sh hw => hprep sh ((hW sh).mp hw), fun sh => h.not_made rfl, h.not_made rfl⟩
  unfold decideOutcome
  refine Discipline.Follows.bind (follows_logCommit (h.mono (by omega)) hlic ?_)
  intro decided T₁ h₁ hW₁ hyes hno
  split
  · exact ⟨fun _ => h₁.not_made rfl, by simp, fun f hf hr => by
      cases hf; simp [Fault.Retry, errorf, codeInDoubt] at hr⟩
  · refine Discipline.Follows.bind (follows_runEach 6 h₁ rfl (fun _ => rfl) (by simp) hnd (fun _ _ _ => hno rfl)
      fun os T₂ hround h₂ => ⟨fun _ => h₂.not_made rfl, by simp, fun _ _ _ _ => ?_⟩)
    obtain ⟨n, hn, hmem⟩ := hno rfl
    exact ⟨n, hn, hround.subset hmem⟩
  · exact follows_finishCommit h₁ (hyes rfl) (fun sh hw => (hW sh).mp ((hW₁ sh).mp hw)) hnd

lemma follows_prepareWriters (h : At g W plain 3 T) (hb : Begun g T)
    (hW : ∀ sh, IsWriter W T sh ↔ sh ∈ writers.map (·.shard))
    (hopen : ∀ sh ∈ writers.map (·.shard), ∃ v, (.on sh .currentXactId, some (.value v)) ∈ T)
    (hnd : (writers.map (·.shard)).Nodup) :
    (discipline g db W plain).Follows (TwoPhaseEnd g) (prepareWriters g writers) T := by
  unfold prepareWriters
  refine Discipline.Follows.bind (follows_runEach 4 h rfl (fun _ => rfl) nofun hnd
    (fun sh hsh => ⟨(hW sh).mpr hsh, hb, hopen sh hsh⟩) fun prepares T₁ hround h₁ => ?_)
  have hb₁ := hb.mono hround.subset
  split
  · refine Discipline.Follows.bind ((follows_abandon h₁ hb₁ ?_).imp fun _ T₂ h₂ =>
      TwoPhaseEnd.undecided h₂ (by omega))
    have hfst : (writers.zip prepares).map Prod.fst = writers :=
      List.map_fst_zip (by simpa [callsOn] using hround.length.ge)
    have : (writers.zip prepares).map (·.1.shard) = ((writers.zip prepares).map Prod.fst).map (·.shard) := by simp
    rw [this, hfst]
    exact hnd
  · rename_i hnone
    exact follows_decideOutcome h₁ hb₁ (fun sh => (hround.writers nofun sh).trans (hW sh))
      (fun sh hsh => hround.heard hnone (on_mem_callsOn hsh)) hnd

lemma follows_twoPhaseCommit {readers : List Part}
    (h : At g W plain 1 T) (hW : ∀ sh, IsWriter W T sh ↔ sh ∈ writers.map (·.shard))
    (hnd : (writers.map (·.shard)).Nodup) (hrd : (readers.map (·.shard)).Nodup) :
    (discipline g db W plain).Follows (TwoPhaseEnd g) (twoPhaseCommit g writers readers) T := by
  unfold twoPhaseCommit
  refine Discipline.Follows.bind (follows_runEach 1 h rfl (fun _ => rfl) (by simp) hrd (fun _ _ => trivial)
    fun rs T₁ hround₁ h₁ => ?_)
  have hW₁ : ∀ sh, IsWriter W T₁ sh ↔ sh ∈ writers.map (·.shard) := fun sh => (hround₁.writers (by simp) sh).trans (hW sh)
  refine Discipline.Follows.bind (follows_runEach 2 h₁ rfl (fun _ => rfl) (by simp) hnd
    (fun sh hsh => (hW₁ sh).mpr hsh) fun xs T₂ hround₂ h₂ => ?_)
  split
  · exact Discipline.Follows.bind (follows_runEach 2 h₂ rfl (fun _ => rfl) (by simp) hnd (fun _ _ => trivial)
      fun _ _ _ h₃ => TwoPhaseEnd.undecided h₃ (by omega))
  · rename_i xids hxids
    refine Discipline.Follows.bind (follows_call 3 h₂ rfl rfl (fun sh => h₂.not_made rfl) fun o T₃ hround₃ h₃ => ?_)
    split
    · exact Discipline.Follows.bind (follows_runEach 3 h₃ rfl (fun _ => rfl) (by simp) hnd (fun _ _ => trivial)
        fun _ _ _ h₄ => TwoPhaseEnd.undecided h₄ (by omega))
    · rename_i hok
      have hbegun : Begun g T₃ := by
        cases o with
        | none => simp [errorOf] at hok
        | some r => exact ⟨writers.map (·.shard.id), xids, r, hround₃.single, hok⟩
      exact follows_prepareWriters h₃ hbegun
        (fun sh => (hround₃.isWriter (by simp) sh).trans ((hround₂.writers (by simp) sh).trans (hW₁ sh)))
        (fun sh hsh => (hround₂.value hxids (on_mem_callsOn hsh)).imp fun v hv => hround₃.subset hv) hnd

end

end PgShard.TwoPhase
