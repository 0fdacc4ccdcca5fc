import PgShard.TwoPhase.Facts

/-!
# Every statement keeps the facts

The coordinator's statements under `Protocol`, also those that land after it
stopped waiting; the resolver's under `May`; and what the databases do by
themselves.
-/

namespace PgShard.TwoPhase

open Interleave

/-- What a resolver pass has to know before it sends a statement about `g`. -/
def May (g : Gid) (c : Call) (s : World) : Prop :=
  match c with
  | .readDecisions | .listShards _ | .listPrepared _ | .selectState _ | .abortStale _ _ => True
  | .finish _ _ commit gid => gid = g → s.ledger.verdict = some commit ∨
        s.ledger.verdict = some true ∧ ∀ sh, s.xact sh ≠ .prepared
  | .deleteState gid st => gid = g → st ≠ .preparing ∧
      (st = .commit → s.ledger.verdict = some true ∧ ∀ sh, s.xact sh ≠ .prepared)
  | _ => False

variable {g : Gid} {db : String} {W : ShardRef → Prop} {plain : Prop}
variable {P : Set Call} {T : Sent} {s s' : World} {c : Call} {r : Reply}

lemma May.later (hle : Later s s') (h : May g c s) : May g c s' := by
  have hnone : s.ledger.verdict = some true → (∀ sh, s.xact sh ≠ .prepared) → ∀ sh, s'.xact sh ≠ .prepared :=
    fun hv hx sh hp => hx sh (hle.prepared hv sh hp)
  cases c with
  | finish sh d commit gid =>
    intro hgid
    rcases h hgid with hv | ⟨hv, hx⟩
    · exact .inl (hle.verdict _ hv)
    · exact .inr ⟨hle.verdict _ hv, hnone hv hx⟩
  | deleteState gid st =>
    intro hgid
    obtain ⟨hst, hcommit⟩ := h hgid
    refine ⟨hst, fun hc => ?_⟩
    obtain ⟨hv, hx⟩ := hcommit hc
    exact ⟨hle.verdict _ hv, hnone hv hx⟩
  | readDecisions | listShards _ | listPrepared _ | selectState _ | abortStale _ _ => trivial
  | on _ _ | begin _ _ _ | decideCommit _ | decideAbort _ | delete _ => exact h

variable {sh : ShardRef} {x : Call} {o : Option Reply}

section

variable (h : Inv g W plain P T s)

include h

/-- A statement that is refused changes nothing. -/
lemma Inv.exec (he : Exec g db c s s' r) (heffect : ∀ r, Effect g db c s s' r → Keeps g T s s') : Keeps g T s s' := by
  cases he with
  | answered e => exact heffect _ e
  | refused f _ => exact ⟨h.toFacts, .refl _⟩
  | failed f e _ => exact heffect _ e

/-- When the coordinator deletes the row, no participant is still prepared by it
with the verdict commit. -/
lemma Inv.delete_done (hmade : Issued P T (.delete g)) : s.ledger ≠ .preparing ∧
      (s.ledger.verdict = some true → ∀ sh, s.xact sh ≠ .prepared) := by
  rcases h.delete_decided hmade with ⟨hno, n, hn⟩ | ⟨hyes, hall⟩
  · refine ⟨h.abort_recorded n hn, fun hv => ?_⟩
    obtain ⟨o, ho, -⟩ := h.verdict_made hv
    exact absurd (.inr ⟨o, ho⟩) hno
  · refine ⟨fun hl => ?_, fun _ sh hx => ?_⟩
    · have := h.commit_heard hyes
      simp [hl, Ledger.verdict] at this
    · have ht := hall sh (h.prepare_writer sh (.inr (h.prepared_made sh hx)))
      simp [h.commitPrepared_heard sh ht] at hx

lemma Inv.effect_late (hc : (c, none) ∈ T) (he : Effect g db c s s' r) : Keeps g T s s' := by
  have hmade : Made T c := ⟨none, hc⟩
  have hsame : Keeps g T s s := ⟨h.toFacts, .refl _⟩
  cases he with
  | rollback hx => exact h.rollsBack hx
  | commitFailed hx | prepareFailed hx => exact h.rollsBack (.inr hx)
  | commitAborts f hx | prepareAborts f hx => exact h.rollsBack (.inl hx)
  | currentXactId v hx => exact h.assigns hmade
  | commit hx | commitCut hx => exact h.commitsPlain hx hc
  | prepare hx => exact h.prepares hx hmade
  | commitPrepared hx => exact h.commits hx (h.commit_heard (h.commit_decided _ (.inr hmade)))
  | rollbackPrepared hx => exact h.undoes hx (.inr hmade)
  | begin ps xs hl => exact h.opens hl hmade
  | decideCommit => exact h.decides true fun _ => hc
  | decideAbort => exact h.decides false (by simp)
  | delete n =>
    obtain ⟨hl, hdone⟩ := h.delete_done (.inr hmade)
    exact h.closes hl hdone
  | rollbackIdle | probe | showPrepared | selectState | selectOther => exact hsame
  -- not the router's
  | readDecisions | listShards | listPrepared | abortStale | abortStaleNot | finish
  | deleteState | deleteStateNot | abortOther | finishOther | deleteOther =>
    exact absurd (h.router _ (.inr hmade)) id

lemma Inv.late (hc : (c, none) ∈ T) (he : Exec g db c s s' r) : Keeps g T s s' := h.exec he fun _ => h.effect_late hc

end

lemma Inv.effect_pass (h : Inv g W plain P T s) (hmay : May g c s) (he : Effect g db c s s' r) : Keeps g T s s' := by
  have hsame : Keeps g T s s := ⟨h.toFacts, .refl _⟩
  cases he with
  | readDecisions | listShards | listPrepared | selectState | abortStaleNot | deleteStateNot
  | selectOther | abortOther | finishOther | deleteOther => exact hsame
  | abortStale t => exact h.decides false (by simp)
  | finish commit hx =>
    rcases hmay rfl with hv | ⟨-, hnone⟩
    · cases commit with
      | true => exact h.commits hx hv
      | false => exact h.undoes hx (.inl hv)
    · exact absurd hx (hnone _)
  | deleteState st hrow =>
    obtain ⟨hst, hcommit⟩ := hmay rfl
    refine h.closes (fun hl => hst ?_) (fun hv => (hcommit ?_).2)
    · simpa [hl, Ledger.row] using hrow.symm
    · cases hl : s.ledger with
      | decided b => cases b <;> simp_all [Ledger.verdict, Ledger.row]
      | preparing => simp [hl, Ledger.verdict] at hv
      | absent | closed v => simp [hl, Ledger.row] at hrow
  -- not the resolver's
  | rollback | rollbackIdle | probe | showPrepared | currentXactId | commit | commitCut
  | commitFailed | commitAborts | prepare | prepareFailed | prepareAborts | commitPrepared
  | rollbackPrepared | begin | decideCommit | decideAbort | delete => exact absurd hmay id

lemma Inv.pass (h : Inv g W plain P T s) (hmay : May g c s) (he : Exec g db c s s' r) : Keeps g T s s' :=
  h.exec he fun _ => h.effect_pass hmay

lemma Inv.env (h : Inv g W plain P T s) (he : Env s s') : Keeps g T s s' := by
  cases he with
  | dies sh hx => exact h.rollsBack hx
  | reshard l hl =>
    exact ⟨{ h.toFacts with live_listed := hl }, { Later.refl s with }⟩

/-- What the answer `r` to a statement says about the world it left. -/
def Tells (g : Gid) (r : Reply) (s : World) : Call → Prop
  | .begin gid _ _ => gid = g → errorOf (some r) = none → s.ledger ≠ .absent
  | .decideCommit gid => gid = g → (r = .rows 1 → s.ledger.verdict = some true) ∧
      ∀ n, n ≠ 1 → r = .rows n → s.ledger.verdict = some false
  | .decideAbort gid => gid = g → ∀ n, r = .rows n → s.ledger ≠ .preparing
  | .on sh .currentXactId => ∀ v, r = .value v → s.xact sh ≠ .failed ∧ s.xact sh ≠ .idle
  | .on sh (.prepare gid) => gid = g → errorOf (some r) = none → s.xact sh = .prepared
  | .on sh (.commitPrepared gid) => gid = g → errorOf (some r) = none → s.xact sh = .committed
  | .on sh .commit => (r = .tag "COMMIT" ∨ r = .cut "COMMIT" → s.xact sh = .committed) ∧
      (s.xact sh = .committed → ¬Retryable (some r))
  | .on sh .hiddenWriteProbe => ∀ v, r = .value v → v = "t" ∨ s.assigned sh = false
  | _ => True

/-- The answer 0 to the commit decision: somebody else decided, and only the
coordinator decides commit. -/
lemma Inv.decide_lost (h : Inv g W plain P T s) (hc : .decideCommit g ∈ P)
    (hl : s.ledger ≠ .preparing) : s.ledger.verdict = some false := by
  have hbegun := h.begin_heard (h.decide_begun (.inl hc))
  have hnot : s.ledger.verdict ≠ some true := by
    intro hv
    obtain ⟨o, ho, -⟩ := h.verdict_made hv
    exact h.decide_once hc ⟨o, ho⟩
  have hdrop := h.not_dropped
  cases hs : s.ledger with
  | absent => exact absurd hs hbegun
  | preparing => exact absurd hs hl
  | decided b => cases b <;> simp_all [Ledger.verdict]
  | closed v =>
    cases v with
    | none => exact absurd hs hdrop
    | some b => cases b <;> simp_all [Ledger.verdict]

lemma retryable_fault {f : Fault} : Retryable (some (.fault f)) ↔ f.code = "40001" ∨ f.stale = true := by
  simp [Retryable]

lemma Inv.tells (h : Inv g W plain P T s) (hc : c ∈ P) (he : Exec g db c s s' r) : Tells g r s' c := by
  cases he with
  | answered e =>
    cases e with
    | begin => exact fun _ _ => by simp
    | decideCommit =>
      refine fun _ => ⟨fun hr => ?_, fun n hn hr => ?_⟩ <;> split at hr
      · rename_i hl
        simp [hl, Ledger.decide, Ledger.verdict]
      · simp at hr
      · exact absurd (by simpa using hr.symm) hn
      · rename_i hl
        rw [Ledger.decide_of_ne hl]
        exact h.decide_lost hc hl
    | decideAbort => exact fun _ _ _ => Ledger.decide_ne_preparing _ _
    | currentXactId _ hx => exact fun _ _ => by simp [World.assign, hx]
    | prepare => exact fun _ _ => by simp
    | prepareFailed hx =>
      obtain ⟨v, hv⟩ := h.prepare_open _ (.inl hc)
      exact absurd hx (h.xid_heard _ v hv).1
    | prepareAborts => exact fun _ hr => by simp [errorOf] at hr
    | commitPrepared => exact fun _ _ => by simp
    | commit | commitCut => exact ⟨fun _ => by simp, fun _ => by simp [Retryable]⟩
    | commitFailed => exact ⟨fun hr => by simp at hr, fun _ => by simp [Retryable]⟩
    | commitAborts => exact ⟨fun hr => by simp at hr, fun hx => by simp at hx⟩
    | @probe _ sh =>
      intro v hv
      cases ha : s.assigned sh <;> simp_all
    | _ => trivial
  | refused f honest | failed f _ honest =>
    -- an error tells something of a plain COMMIT only
    unfold Tells
    split
    case h_7 => exact ⟨fun hr => by simp at hr, fun hx => by simp [retryable_fault, honest hx]⟩
    all_goals simp [errorOf]

/-! ### A statement of the coordinator gets its outcome -/

lemma made_insert : Made (insert (c, o) T) x ↔ x = c ∨ Made T x := by
  simp [Made, Set.mem_insert_iff, exists_or]

lemma Heard.mono {T T' : Sent} (hsub : T ⊆ T') (h : Heard T x) : Heard T' x := h.imp fun _ hr => ⟨hsub hr.1, hr.2⟩

lemma Begun.mono {T T' : Sent} (hsub : T ⊆ T') (h : Begun g T) : Begun g T' :=
  h.imp fun _ => Exists.imp fun _ hn => hn.mono hsub

lemma issued_insert (hc : c ∈ P) : Issued (P \ {c}) (insert (c, o) T) x ↔ Issued P T x := by
  by_cases hx : x = c
  · simp [Issued, made_insert, hx, hc]
  · simp [Issued, made_insert, hx]

lemma isWriter_insert (h : IsWriter W T sh) : IsWriter W (insert (c, o) T) sh := h.imp_right .inr

lemma Protocol.outcome (h : Protocol g W plain P T) (hc : c ∈ P) (o : Option Reply) :
    Protocol g W plain (P \ {c}) (insert (c, o) T) := by
  have hsub : T ⊆ insert (c, o) T := Set.subset_insert _ _
  have hissued : ∀ {x}, Issued (P \ {c}) (insert (c, o) T) x → Issued P T x := (issued_insert hc).mp
  -- a probe that is still out was sent before any decision
  have hold : ∀ sh, Issued P T (.decideCommit g) → IsWriter W (insert (c, o) T) sh →
      IsWriter W T sh := by
    rintro sh hd (hw | hw | hw)
    · exact .inl hw
    · cases hw
      exact absurd hd (h.probe_first sh hc)
    · exact .inr hw
  constructor
  case router => intro x hx; exact h.router x (hissued hx)
  case probe_first =>
    intro sh hsh
    rw [issued_insert hc]
    exact h.probe_first sh hsh.1
  case xid_writer =>
    intro sh hsh
    exact isWriter_insert (h.xid_writer sh (hissued hsh))
  case prepare_writer =>
    intro sh hsh
    exact isWriter_insert (h.prepare_writer sh (hissued hsh))
  case prepare_begun =>
    intro sh hsh
    exact (h.prepare_begun sh (hissued hsh)).mono hsub
  case prepare_open =>
    intro sh hsh
    exact (h.prepare_open sh (hissued hsh)).imp fun v hv => hsub hv
  case decide_once =>
    rintro ⟨hd, hne⟩ hm
    rcases made_insert.mp hm with heq | hm
    · exact hne heq
    · exact h.decide_once hd hm
  case decide_begun => intro hd; exact (h.decide_begun (hissued hd)).mono hsub
  case decide_prepared =>
    intro hd sh hw
    have hd' := hissued hd
    exact (h.decide_prepared hd' sh (hold sh hd' hw)).mono hsub
  case rollback_undecided =>
    intro sh hb hd
    obtain ⟨n, hn, hmem⟩ := h.rollback_undecided sh (hissued hb) (hissued hd)
    exact ⟨n, hn, hsub hmem⟩
  case commit_decided =>
    intro sh hsh
    exact hsub (h.commit_decided sh (hissued hsh))
  case abort_begun => intro ha; exact (h.abort_begun (hissued ha)).mono hsub
  case delete_decided =>
    intro hd
    rw [issued_insert hc]
    rcases h.delete_decided (hissued hd) with ⟨hno, n, hn⟩ | ⟨hyes, hall⟩
    · exact .inl ⟨hno, n, hsub hn⟩
    · refine .inr ⟨hsub hyes, fun sh hw => ?_⟩
      exact (hall sh (hold sh (.inr ⟨_, hyes⟩) hw)).mono hsub
  case plain_alone =>
    intro sh hsh
    obtain ⟨hp, hb⟩ := h.plain_alone sh (hissued hsh)
    exact ⟨hp, fun ps xs hx => hb ps xs (hissued hx)⟩

/-- The trace grows: answers that were missing are filled in, and what they tell is so. -/
lemma Facts.grow {T' : Sent} (h : Facts g T s)
    (hkept : ∀ x o, (x, o) ∈ T → (x, o) ∈ T' ∨ ∃ r, (x, some r) ∈ T' ∧ Tells g r s x)
    (hheard : ∀ x r, (x, some r) ∈ T' → (x, some r) ∈ T ∨ Tells g r s x) : Facts g T' s := by
  have hmade : ∀ x, Made T x → Made T' x := by
    rintro x ⟨o, ho⟩
    rcases hkept x o ho with ho | ⟨r, hr, -⟩
    · exact ⟨o, ho⟩
    · exact ⟨some r, hr⟩
  constructor
  case begun_made => exact fun hl => (h.begun_made hl).imp fun ps => Exists.imp fun xs => hmade _
  case begin_heard =>
    rintro ⟨ps, xs, r, hr, hok⟩
    rcases hheard _ r hr with hr | hs
    · exact h.begin_heard ⟨ps, xs, r, hr, hok⟩
    · exact hs rfl hok
  case verdict_made =>
    intro hv
    obtain ⟨o, ho, hne⟩ := h.verdict_made hv
    rcases hkept _ o ho with ho | ⟨r, hr, hs⟩
    · exact ⟨o, ho, hne⟩
    · refine ⟨some r, hr, fun n hn heq => ?_⟩
      have := (hs rfl).2 n hn (Option.some.inj heq)
      simp [hv] at this
  case commit_heard =>
    intro hr
    rcases hheard _ _ hr with hr | hs
    · exact h.commit_heard hr
    · exact (hs rfl).1 rfl
  case abort_heard =>
    rintro ⟨n, hn, hr⟩
    rcases hheard _ _ hr with hr | hs
    · exact h.abort_heard ⟨n, hn, hr⟩
    · exact (hs rfl).2 n hn rfl
  case abort_recorded =>
    intro n hr
    rcases hheard _ _ hr with hr | hs
    · exact h.abort_recorded n hr
    · exact hs rfl n rfl
  case not_dropped => exact h.not_dropped
  case closed_done => exact h.closed_done
  case xid_heard =>
    intro sh v hr
    rcases hheard _ _ hr with hr | hs
    · exact h.xid_heard sh v hr
    · exact hs v rfl
  case prepared_made => exact fun sh hx => hmade _ (h.prepared_made sh hx)
  case prepare_heard =>
    rintro sh ⟨r, hr, hok⟩
    rcases hheard _ r hr with hr | hs
    · exact (h.prepare_heard sh ⟨r, hr, hok⟩).imp_right
        (Or.imp_right (And.imp_right (Or.imp_right (hmade _))))
    · exact .inl (hs rfl hok)
  case committed_why =>
    intro sh hx
    refine (h.committed_why sh hx).imp_right ?_
    rintro ⟨o, ho, hne⟩
    rcases hkept _ o ho with ho | ⟨r, hr, hs⟩
    · exact ⟨o, ho, hne⟩
    · exact ⟨some r, hr, hs.2 hx⟩
  case commitPrepared_heard =>
    rintro sh ⟨r, hr, hok⟩
    rcases hheard _ r hr with hr | hs
    · exact h.commitPrepared_heard sh ⟨r, hr, hok⟩
    · exact hs rfl hok
  case commit_heard_plain =>
    rintro sh (hr | hr)
    all_goals rcases hheard _ _ hr with hr | hs
    · exact h.commit_heard_plain sh (.inl hr)
    · exact hs.1 (.inl rfl)
    · exact h.commit_heard_plain sh (.inr hr)
    · exact hs.1 (.inr rfl)
  case live_listed => exact h.live_listed
  case probe_heard =>
    intro sh v hr
    rcases hheard _ _ hr with hr | hs
    · exact (h.probe_heard sh v hr).imp_right (Or.imp_right (hmade _))
    · exact (hs v rfl).imp_right .inl

lemma Facts.lose (h : Facts g T s) (c : Call) : Facts g (insert (c, none) T) s :=
  h.grow (fun _ _ ho => .inl (.inr ho)) fun x r hr => .inl (by simpa using hr)

/-- What was known of a lost answer, with the answer. -/
lemma Facts.hear (h : Facts g (insert (c, none) T) s) (hs : Tells g r s c) : Facts g (insert (c, some r) T) s := by
  refine h.grow ?_ ?_
  · rintro x o (heq | ho)
    · cases heq
      exact .inr ⟨r, .inl rfl, hs⟩
    · exact .inl (.inr ho)
  · rintro x q (heq | hq)
    · cases heq
      exact .inr hs
    · exact .inl (.inr hq)

lemma Inv.lose (h : Inv g W plain P T s) (hc : c ∈ P) : Inv g W plain (P \ {c}) (insert (c, none) T) s :=
  ⟨h.toProtocol.outcome hc none, h.toFacts.lose c⟩

lemma Inv.hear (h : Inv g W plain P T s) (hc : c ∈ P) (he : Exec g db c s s' r) :
    Inv g W plain (P \ {c}) (insert (c, some r) T) s' ∧ Later s s' := by
  obtain ⟨hf, hle⟩ := (h.lose hc).late (.inl rfl) he
  exact ⟨⟨h.toProtocol.outcome hc _, hf.hear (h.tells hc he)⟩, hle⟩

/-- The discipline of a transaction's end: `lic` is that the protocol still
holds once the statements are out. -/
def discipline (g : Gid) (db : String) (W : ShardRef → Prop) (plain : Prop) : Discipline (machine g db) where
  inv := Inv g W plain
  le := Later
  may := May g
  lic T cs := Protocol g W plain {c | c ∈ cs} T
  le_refl := Later.refl
  le_trans := Later.trans
  may_mono := May.later
  env_ok h he := (h.env he).imp_left fun hf => ⟨h.toProtocol, hf⟩
  pass_ok h hmay he := (h.pass hmay he).imp_left fun hf => ⟨h.toProtocol, hf⟩
  late_ok h hc he := (h.late hc he).imp_left fun hf => ⟨h.toProtocol, hf⟩
  hear_ok h hc he := h.hear hc he
  lose_ok h hc := h.lose hc
  issue_ok h hlic := ⟨hlic, h.toFacts⟩

end PgShard.TwoPhase
