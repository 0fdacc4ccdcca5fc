import PgShard.TwoPhase.Atomicity

/-!
# What the client's answer to COMMIT says
-/

namespace PgShard.TwoPhase

open Interleave

variable {g : Gid} {db : String} {W : ShardRef → Prop} {plain : Prop} {T : Sent}

lemma follows_checkCapacities {e : Session} {Q : Option Fault → Sent → Prop} (ps : List Part) (h : At g W plain 1 T)
    (hQ : ∀ res T', At g W plain 1 T' → T ⊆ T' → (∀ sh, IsWriter W T' sh ↔ IsWriter W T sh) → Q res T') :
    (discipline g db W plain).Follows Q (checkCapacities e ps) T := by
  induction ps generalizing T with
  | nil => exact hQ _ _ h subset_rfl fun _ => .rfl
  | cons p ps ih =>
    rw [checkCapacities]
    refine Discipline.Follows.bind ?_
    unfold checkPreparedCapacity
    split
    · exact ih h hQ
    · exact hQ _ _ h subset_rfl fun _ => .rfl
    · refine Discipline.Follows.bind (follows_call 1 h rfl rfl trivial fun o T₁ hround h₁ => ?_)
      have hW₁ := hround.isWriter (W := W) (by simp)
      split
      · exact hQ _ _ h₁ hround.subset hW₁
      · by_cases hn : atoi ‹String› ≤ 0
        · rw [if_pos hn]
          exact hQ _ _ h₁ hround.subset hW₁
        · rw [if_neg hn]
          exact ih h₁ fun res T' h' hsub hW' =>
            hQ res T' h' (hround.subset.trans hsub) fun sh => (hW' sh).trans (hW₁ sh)

/-- The parts the planner saw write. -/
abbrev Session.Writes (e : Session) (sh : ShardRef) : Prop := ∃ p ∈ e.parts, p.wrote = true ∧ p.shard = sh

/-- What `promoteHiddenWriters` has found out when it lets the commit go on. -/
structure Promoted (e : Session) (T : Sent) (parts : List Part) : Prop where
  shards : parts.map (·.shard) = e.parts.map (·.shard)
  writers : ∀ sh, IsWriter e.Writes T sh ↔ sh ∈ (parts.filter (·.wrote)).map (·.shard)
  probed : ∀ p ∈ e.parts, p.wrote = true ∨ ∃ v, (.on p.shard .hiddenWriteProbe, some (.value v)) ∈ T

lemma map_shard_promote (hidden parts : List Part) : (promote hidden parts).map (·.shard) = parts.map (·.shard) := by
  rw [promote, List.map_map]
  refine List.map_congr_left fun p _ => ?_
  simp only [Function.comp_apply]
  split <;> rfl

variable {e : Session} {parts : List Part} {f : Fault}

lemma mem_writers_promote {hidden : List Part} {sh : ShardRef} :
    sh ∈ ((promote hidden parts).filter (·.wrote)).map (·.shard) ↔
      ∃ p ∈ parts, (p.wrote = true ∨ p ∈ hidden) ∧ p.shard = sh := by
  have hone : ∀ p : Part, (if p ∈ hidden then { p with wrote := true } else p).shard = p.shard ∧
      ((if p ∈ hidden then { p with wrote := true } else p).wrote = true ↔
        p.wrote = true ∨ p ∈ hidden) := by
    intro p
    by_cases hp : p ∈ hidden <;> simp [hp]
  simp only [promote, List.mem_map, List.mem_filter]
  constructor
  · rintro ⟨_, ⟨⟨p, hp, rfl⟩, hw⟩, rfl⟩
    exact ⟨p, hp, (hone p).2.mp hw, (hone p).1.symm⟩
  · rintro ⟨p, hp, hw, rfl⟩
    exact ⟨_, ⟨⟨p, hp, rfl⟩, (hone p).2.mpr hw⟩, (hone p).1⟩

lemma writers_promote_length (hidden : List Part) (hnd : (parts.map (·.shard)).Nodup) :
    ((promote hidden parts).filter (·.wrote)).length ≤
      (parts.filter (·.wrote) ++ hidden).length := by
  have hnd' : (((promote hidden parts).filter (·.wrote)).map (·.shard)).Nodup := by
    refine List.Nodup.sublist (.map _ List.filter_sublist) ?_
    rwa [map_shard_promote]
  have hsub : ((promote hidden parts).filter (·.wrote)).map (·.shard) ⊆
      (parts.filter (·.wrote) ++ hidden).map (·.shard) := by
    intro sh hsh
    obtain ⟨p, hp, hw, rfl⟩ := mem_writers_promote.mp hsh
    refine List.mem_map_of_mem (List.mem_append.mpr ?_)
    exact hw.imp_left fun hw => List.mem_filter.mpr ⟨hp, hw⟩
  simpa using (List.subperm_of_subset hnd' hsub).length_le

lemma Session.gid_of_two (h : 2 ≤ (e.parts.filter (·.wrote)).length) : e.gid = e.commitGid := by
  have hne : e.gid ≠ "" := e.named ((e.parts_perm.filter _).length_eq ▸ h)
  simp [Session.commitGid, hne]

/-- The outcome of `promoteHiddenWriters` after the trace `T`. -/
def PromoteEnd (g : Gid) (plain : Prop) (e : Session) (res : Except Fault (List Part × Gid)) (T : Sent) : Prop :=
  At g e.Writes plain 1 T ∧ ∀ parts gid, res = .ok (parts, gid) → Promoted e T parts ∧
      (2 ≤ (parts.filter (·.wrote)).length → gid = e.commitGid)

lemma PromoteEnd.error {e : Session} {f : Fault} (h : At g e.Writes plain 1 T) :
    PromoteEnd g plain e (.error f) T := ⟨h, nofun⟩

lemma PromoteEnd.ok {e : Session} {parts : List Part} {gid : Gid} (h : At g e.Writes plain 1 T)
    (hp : Promoted e T parts) (hgid : 2 ≤ (parts.filter (·.wrote)).length → gid = e.commitGid) :
    PromoteEnd g plain e (.ok (parts, gid)) T := by
  refine ⟨h, ?_⟩
  rintro _ _ ⟨⟩
  exact ⟨hp, hgid⟩

lemma follows_admitHidden {hidden : List Part} (h : At g e.Writes plain 1 T)
    (hp : Promoted e T (promote hidden e.parts)) : (discipline g db e.Writes plain).Follows (PromoteEnd g plain e)
      (admitHidden e e.parts hidden) T := by
  unfold admitHidden
  dsimp only
  split
  · rename_i hfew
    refine .ok h hp fun htwo => ?_
    rcases hfew with rfl | hfew
    · exact Session.gid_of_two (by simpa [promote] using htwo)
    · have := writers_promote_length hidden e.parts_distinct
      omega
  split
  · exact .error h
  split
  · exact .error h
  split
  · rename_i hgid
    exact .ok h hp fun _ => by simp [Session.commitGid, hgid]
  · rename_i hgid
    refine Discipline.Follows.bind (follows_checkCapacities _ h ?_)
    intro res T' h' hsub hW
    split
    · exact .error h'
    · refine .ok h' ⟨hp.shards, fun sh => (hW sh).trans (hp.writers sh), fun p hmem => ?_⟩ ?_
      · exact (hp.probed p hmem).imp_right (Exists.imp fun v hv => hsub hv)
      · exact fun _ => by simp [Session.commitGid, not_not.mp hgid]

lemma probe_answered {readers : List Part} {answers : List String} {sh : ShardRef} :
    (Call.on sh .hiddenWriteProbe, some (Reply.value "t")) ∈
      after ∅ (callsOn readers .hiddenWriteProbe) (answers.map fun v => some (.value v)) ↔
    ∃ p ∈ ((readers.zip answers).filter (·.2 = "t")).map (·.1), p.shard = sh := by
  simp only [after, Set.empty_union, Set.mem_ofPred_eq, callsOn, List.zip_map, List.mem_map,
    List.mem_filter, decide_eq_true_eq, Prod.exists, Prod.map_apply, Prod.mk.injEq, Call.on.injEq,
    and_true, Option.some.injEq, Reply.value.injEq]
  constructor
  · rintro ⟨p, v, hmem, rfl, rfl⟩
    exact ⟨p, ⟨p, _, ⟨hmem, rfl⟩, rfl⟩, rfl⟩
  · rintro ⟨_, ⟨p, v, ⟨hmem, rfl⟩, rfl⟩, rfl⟩
    exact ⟨p, _, hmem, rfl, rfl⟩

lemma follows_promote : (discipline g db e.Writes plain).Follows (PromoteEnd g plain e)
      (promoteHiddenWriters e e.parts) ∅ := by
  unfold promoteHiddenWriters
  have hempty : At g e.Writes plain 1 ∅ := ⟨Protocol.empty, below_empty⟩
  dsimp only
  split
  · rename_i hnil
    have hall : ∀ p ∈ e.parts, p.wrote = true := by
      simpa [List.filter_eq_nil_iff] using hnil
    refine .ok hempty ⟨rfl, fun sh => ?_, fun p hp => .inl (hall p hp)⟩ Session.gid_of_two
    simp only [IsWriter, Session.Writes, Set.mem_empty_iff_false, or_false, List.mem_map, List.mem_filter, and_assoc]
  · set readers := e.parts.filter (!·.wrote) with hreaders
    have hrd : (readers.map (·.shard)).Nodup := e.parts_distinct.sublist (List.filter_sublist.map _)
    refine Discipline.Follows.bind (follows_runEach 1 hempty rfl (fun _ => rfl) (by simp) hrd
      (fun _ _ => hempty.not_made rfl) fun os T₁ hround h₁ => ?_)
    split
    · exact .error h₁
    · rename_i answers hanswers
      refine follows_admitHidden h₁ ⟨map_shard_promote _ _, fun sh => ?_, fun p hp => ?_⟩
      · have hhidden : ∀ p ∈ ((readers.zip answers).filter (·.2 = "t")).map (·.1),
            p ∈ e.parts := by
          intro p hp
          obtain ⟨⟨_, v⟩, hmem, rfl⟩ := List.mem_map.mp hp
          have := (List.of_mem_zip (List.mem_filter.mp hmem).1).1
          exact (List.mem_filter.mp this).1
        rw [mem_writers_promote, IsWriter, hround.trace, queryAll_ok hanswers, probe_answered]
        constructor
        · rintro (⟨p, hp, hw, rfl⟩ | ⟨p, hp, rfl⟩)
          · exact ⟨p, hp, .inl hw, rfl⟩
          · exact ⟨p, hhidden p hp, .inr hp, rfl⟩
        · rintro ⟨p, hp, hw | hh, rfl⟩
          · exact .inl ⟨p, hp, hw, rfl⟩
          · exact .inr ⟨p, hh, rfl⟩
      · by_cases hw : p.wrote = true
        · exact .inl hw
        · refine .inr (hround.value hanswers (on_mem_callsOn ?_))
          exact List.mem_map_of_mem (by simp [hreaders, hp, hw])

/-- What the trace says once `endTxn` has answered a COMMIT. -/
structure CommitEnd (e : Session) (a : Answer) (T : Sent) : Prop where
  sent : a.sent = some "COMMIT" → (∀ p ∈ e.parts, p.wrote = true ∨
      ∃ v, (.on p.shard .hiddenWriteProbe, some (.value v)) ∈ T) ∧
    ((.decideCommit e.commitGid, some (.rows 1)) ∈ T ∨ ∃ sh, ((.on sh .commit, some (.tag "COMMIT")) ∈ T ∨
          (.on sh .commit, some (.cut "COMMIT")) ∈ T) ∧
        ∀ sh', IsWriter e.Writes T sh' → sh' = sh)
  retry : ∀ f, a.err = some f → f.Retry → (Made T (.decideCommit e.commitGid) → Overtaken e.commitGid T) ∧
    ∀ sh o, (.on sh .commit, o) ∈ T → Retryable o

lemma relay_sent {o : Option Reply} {t : String} (h : (relay o).sent = some t) :
    o = some (.tag t) ∨ o = some (.cut t) := by
  unfold relay at h
  split at h <;> simp_all

lemma relay_err (o : Option Reply) : (relay o).err = errorOf o := by
  rcases o with _ | ⟨_ | _ | _ | _ | _ | _ | _ | _ | _⟩ <;> rfl

lemma retryable_of_errorOf {o : Option Reply} (h : errorOf o = some f) (hf : f.Retry) : Retryable o := by
  have hlost : ¬lost.Retry := by simp [Fault.Retry, lost, errorf, codeConnectionFailure]
  unfold errorOf at h
  split at h
  · exact absurd (Option.some.inj h ▸ hf) hlost
  · exact absurd (Option.some.inj h ▸ hf) hlost
  · cases h
    exact retryable_fault.mpr hf
  · cases h

lemma CommitEnd.undecided (h : At g W plain 1 T) : CommitEnd e ⟨none, some f⟩ T where
  sent h := by simp at h
  retry _ _ _ := ⟨fun hm => absurd hm (h.not_made rfl), fun sh o ho => absurd ⟨o, ho⟩ (h.not_made rfl)⟩

lemma eq_singleton_of_mem {α : Type} {l : List α} {a : α} (ha : a ∈ l) (hl : l.length ≤ 1) : l = [a] := by
  match l, ha with
  | [b], ha => rw [List.mem_singleton.mp ha]
  | _ :: _ :: _, _ => simp at hl

lemma follows_endPlain (h : At e.commitGid e.Writes True 1 T) (hp : Promoted e T parts)
    (hone : (parts.filter (·.wrote)).length ≤ 1) : (discipline e.commitGid db e.Writes True).Follows (CommitEnd e)
      (endPlain e true parts (parts.filter (·.wrote))) T := by
  unfold endPlain
  set final := ((parts.filter (·.wrote)).head?.getD e.current).shard with hfinal
  simp only [if_true, Bool.true_or]
  have hnd : ((parts.filter (·.shard ≠ final)).map (·.shard)).Nodup := by
    have := hp.shards ▸ e.parts_distinct
    exact this.sublist (List.filter_sublist.map _)
  refine Discipline.Follows.bind (follows_runEach 1 h rfl (fun _ => rfl) nofun hnd (fun _ _ => trivial)
    fun rs T₁ hround₁ h₁ => ?_)
  refine Discipline.Follows.bind (follows_call 7 h₁ rfl rfl ⟨trivial, fun _ _ => h₁.not_made rfl⟩
    fun o T₂ hround₂ h₂ => ?_)
  have hmem := hround₂.single
  refine ⟨fun hs => ⟨fun p hpart => ?_, .inr ⟨final, ?_, fun sh hw => ?_⟩⟩, fun f hf hr => ?_⟩
  · exact (hp.probed p hpart).imp_right (Exists.imp fun v hv => hround₂.subset (hround₁.subset hv))
  · rcases relay_sent hs with rfl | rfl
    · exact .inl hmem
    · exact .inr hmem
  · rw [hround₂.isWriter (by simp), hround₁.writers nofun, hp.writers] at hw
    obtain ⟨w, hmem', rfl⟩ := List.mem_map.mp hw
    rw [hfinal, eq_singleton_of_mem hmem' hone]
    rfl
  · rw [hround₂.trace]
    constructor
    · rintro ⟨o', ho' | ho'⟩
      · exact absurd ⟨o', ho'⟩ (h₁.not_made rfl)
      · simp at ho'
    · rintro sh o' (ho' | ho')
      · exact absurd ⟨o', ho'⟩ (h₁.not_made rfl)
      · have : o' = o := by
          simp only [List.zip_cons_cons, List.zip_nil_right, List.mem_singleton, Prod.mk.injEq,
            Set.mem_ofPred_eq] at ho'
          exact ho'.2
        exact this ▸ retryable_of_errorOf (relay_err o ▸ hf) hr

lemma retry_nameFence (h : (nameFenceInTxn f).code = "40001") : f.Retry := by
  unfold nameFenceInTxn at h
  split at h
  · rename_i hstale
    exact .inr hstale
  · exact .inl h

lemma follows_endTxn_run (e : Session) :
    (discipline e.commitGid db e.Writes True).Follows (CommitEnd e) (endTxn.run e true) ∅ := by
  have hempty : At e.commitGid e.Writes True 1 ∅ := ⟨Protocol.empty, below_empty⟩
  unfold endTxn.run
  split
  · exact CommitEnd.undecided hempty
  refine Discipline.Follows.bind (follows_promote.imp ?_)
  rintro (f | ⟨parts, gid⟩) T ⟨h, hend⟩
  · exact Discipline.Follows.bind (follows_runEach 1 h rfl (fun _ => rfl) nofun e.parts_distinct (fun _ _ => trivial)
      fun _ _ _ h₁ => CommitEnd.undecided h₁)
  · obtain ⟨hp, hgid⟩ := hend parts gid rfl
    dsimp only
    split
    · rename_i hone
      exact follows_endPlain h hp (by simpa using hone)
    · rename_i htwo
      obtain rfl := hgid (by simp at htwo; omega)
      have hnd : (parts.map (·.shard)).Nodup := hp.shards ▸ e.parts_distinct
      refine (follows_twoPhaseCommit h hp.writers
        (hnd.sublist (List.filter_sublist.map _))
        (hnd.sublist (List.filter_sublist.map _))).keep.imp ?_
      rintro a T' ⟨hend, hsub⟩
      refine ⟨fun hs => ⟨fun p hpart => ?_, .inl (hend.sent (by simp [hs]))⟩,
        fun f hf hr => ⟨hend.retry f hf hr, fun sh o ho => absurd ⟨o, ho⟩ (hend.no_plain sh)⟩⟩
      exact (hp.probed p hpart).imp_right (Exists.imp fun v hv => hsub hv)

lemma follows_endTxn (e : Session) : (discipline e.commitGid db e.Writes True).Follows
      (fun a T => ∃ a₀, CommitEnd e a₀ T ∧ a = { a₀ with err := a₀.err.map nameFenceInTxn })
      (endTxn e true) ∅ :=
  Discipline.Follows.bind ((follows_endTxn_run e).imp fun a₀ _ h => ⟨a₀, h, rfl⟩)

/-- The client's answer to COMMIT of a multi-shard transaction matches the
outcome, for any parts and mode, in every state that follows it: after the COMMIT
tag every part that wrote or whose backend assigned a transaction id is
committed, or is prepared under a row that says commit; after SQLSTATE 40001 no
part commits. -/
theorem endTxn_answer (e : Session) (db : String) (s : World) (hs : Opening s)
    (y : Sys World Call Reply Answer (Option Outcome))
    (hy : Reachable (machine e.commitGid db) s (endTxn e true) y) (a : Answer)
    (hdone : y.main = some (.done a)) (z : Sys World Call Reply Answer (Option Outcome))
    (hz : Relation.ReflTransGen (Step (machine e.commitGid db)) y z) :
    (a.sent = some "COMMIT" → ∀ p ∈ e.parts, p.wrote = true ∨ z.store.assigned p.shard = true →
      z.store.xact p.shard = .committed ∨ z.store.xact p.shard = .prepared ∧ z.store.ledger.row = some .commit) ∧
    (∀ f, a.err = some f → f.code = "40001" → ∀ sh, z.store.xact sh ≠ .committed) := by
  obtain ⟨P, T, hgov⟩ := Discipline.sound (passes_safe e.gidPrefix_commitGid) hs.inv
    (follows_endTxn e) (hy.after_done hdone hz)
  have hinv := hgov.store
  obtain ⟨-, a₀, hend, rfl⟩ := hgov.main _ rfl
  constructor
  · intro hsent p hp hwrote
    obtain ⟨hprobed, hhow⟩ := hend.sent hsent
    have hw : IsWriter e.Writes T p.shard := by
      rcases hprobed p hp with hw | ⟨v, hv⟩
      · exact .inl ⟨p, hp, hw, rfl⟩
      · rcases hwrote with hw | hassigned
        · exact .inl ⟨p, hp, hw, rfl⟩
        · rcases hinv.probe_heard p.shard v hv with rfl | hno | hxid
          · exact .inr hv
          · exact absurd (hassigned.symm.trans hno) (by simp)
          · exact hinv.xid_writer p.shard (.inr hxid)
    rcases hhow with hyes | ⟨sh, hcommit, honly⟩
    · have hv := hinv.commit_heard hyes
      refine (hinv.verdict_writers hv hw).symm.imp_right fun hx => ⟨hx, ?_⟩
      cases hl : z.store.ledger with
      | absent | preparing => simp [hl, Ledger.verdict] at hv
      | decided b =>
        obtain rfl : b = true := by simpa [hl, Ledger.verdict] using hv
        rfl
      | closed v =>
        obtain rfl : v = some true := by simpa [hl, Ledger.verdict] using hv
        exact absurd hx (hinv.closed_done hl p.shard)
    · left
      rw [honly p.shard hw]
      exact hinv.commit_heard_plain sh hcommit
  · intro f hf hcode sh hx
    obtain ⟨f₀, hf₀, rfl⟩ := Option.map_eq_some_iff.mp hf
    obtain ⟨hdecide, hplain⟩ := hend.retry f₀ hf₀ (retry_nameFence hcode)
    rcases hinv.committed_why sh hx with hv | ⟨o, ho, hnot⟩
    · obtain ⟨o, ho, -⟩ := hinv.verdict_made hv
      have := hinv.abort_heard (hdecide ⟨o, ho⟩)
      simp [hv] at this
    · exact hnot (hplain sh o ho)

lemma unnamed : ("" : Gid) = "" ∨ gidPrefix.toList <+: ("" : Gid).toList := .inl rfl

/-- The transaction of `twoShards` in a session that only knows of the first
shard's write. -/
def hiddenWriter : Session where
  sid := "s"
  gid := ""
  gidSeq := 0
  mode := .twopc
  decisionLog := true
  preparedCapacity _ := some true
  current := ⟨shardOne, true⟩
  parked := [⟨shardTwo, false⟩]
  distinct := by decide
  named := by decide
  ours := unnamed

lemma commitGid_hiddenWriter : hiddenWriter.commitGid = hiddenWriter.nextGid := if_pos rfl

lemma hiddenWriter_commits : ∃ s', Runs (machine hiddenWriter.commitGid "app")
    (endTxn hiddenWriter true) twoShards ⟨some "COMMIT", none⟩ s' ∧
    s'.assigned shardTwo = true := by
  rw [commitGid_hiddenWriter]
  exact ⟨_, .await (.cons (.answered (.probe rfl)) .nil) (.await .nil
    (.await (.cons (.answered (.currentXactId "701" rfl)) (.cons (.answered (.currentXactId "702" rfl)) .nil))
    (.await (.cons (.answered (.begin _ _ rfl)) .nil)
    (.await (.cons (.answered (.prepare rfl)) (.cons (.answered (.prepare rfl)) .nil))
    (.await (.cons (.answered .decideCommit) .nil)
    (.await (.cons (.answered (.commitPrepared rfl)) .nil)
    (.await (.cons (.answered (.commitPrepared rfl)) .nil)
    (.await (.cons (.answered (.delete 1)) .nil) .ret)))))))), rfl⟩
theorem endTxn_answer_hiddenWriter : ∃ y : Sys World Call Reply Answer (Option Outcome),
      Reachable (machine hiddenWriter.commitGid "app") twoShards (endTxn hiddenWriter true) y ∧
      y.main = some (.done ⟨some "COMMIT", none⟩) ∧
      (y.store.xact shardTwo = .committed ∨
        y.store.xact shardTwo = .prepared ∧ y.store.ledger.row = some .commit) := by
  obtain ⟨s', hrun, hassigned⟩ := hiddenWriter_commits
  refine ⟨_, hrun.initial, rfl, ?_⟩
  exact (endTxn_answer hiddenWriter "app" twoShards twoShards_opening _ hrun.initial _ rfl _
    .refl).1 rfl ⟨shardTwo, false⟩ (by decide) (.inr hassigned)

end PgShard.TwoPhase
