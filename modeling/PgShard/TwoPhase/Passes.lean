import PgShard.TwoPhase.Discipline

/-!
# Every resolver pass keeps the facts

A pass acts on answers that may be out of date by the time it uses them. What it
relies on is what cannot go back: a verdict, that the row was once written, and,
once the verdict is commit, that no further participant becomes prepared.
-/

namespace PgShard.TwoPhase

open Interleave

@[simp] lemma Holders.at_set (holders : Holders) (gid gid' : Gid) (hs : List Holder) :
    (holders.set gid hs).at gid' = if gid' = gid then hs else holders.at gid' := by
  by_cases h : gid' = gid
  · subst h
    simp [Holders.at, Holders.set, List.filter_append, List.filter_map, Function.comp_def]
  · have hne : ∀ x : Gid × Holder, (x.1 ≠ gid ∧ x.1 = gid') = (x.1 = gid') := by
      intro x
      by_cases hx : x.1 = gid' <;> simp [hx, h]
    have h' : ¬gid = gid' := fun heq => h heq.symm
    simp [Holders.at, Holders.set, List.filter_append, List.filter_map, Function.comp_def, h, h', List.filter_filter]
    congr 1
    apply List.filter_congr
    intro x _
    by_cases hx : x.1 = gid' <;> simp [hx, h]

lemma Holders.mem_at {holders : Holders} {gid : Gid} {h : Holder} : h ∈ holders.at gid ↔ (gid, h) ∈ holders := by
  simp only [Holders.at, List.mem_map, List.mem_filter, decide_eq_true_eq]
  constructor
  · rintro ⟨⟨gid', h'⟩, ⟨hmem, rfl⟩, rfl⟩
    exact hmem
  · exact fun hmem => ⟨(gid, h), ⟨hmem, rfl⟩, rfl⟩

variable {g : Gid} {db : String} {W : ShardRef → Prop} {plain : Prop}
variable {s t : World} {gid : Gid} {holders : Holders}

/-- A held gid had its row. -/
def Held (g : Gid) (holders : Holders) (s : World) : Prop := holders.at g ≠ [] → s.ledger ≠ .absent

/-- The transaction is decided commit, and where it is still prepared is known. -/
def Covered (g : Gid) (db : String) (holders : Holders) (s : World) : Prop :=
  s.ledger.verdict = some true ∧ ∀ sh, s.xact sh = .prepared → ⟨sh, db⟩ ∈ holders.at g

lemma Held.later (h : Held g holders s) (hle : Later s t) : Held g holders t := fun hne => hle.begun (h hne)

lemma Covered.later (h : Covered g db holders s) (hle : Later s t) : Covered g db holders t :=
  ⟨hle.verdict _ h.1, fun sh hp => h.2 sh (hle.prepared h.1 sh hp)⟩

/-- What a pass carries from one decision to the next; `C` says that a commit
row was read and that every shard was searched after it. -/
def Carried (g : Gid) (db : String) (C : Prop) (holders : Holders) (s : World) : Prop :=
  Held g holders s ∧ (C → Covered g db holders s)

lemma Carried.later {C : Prop} (h : Carried g db C holders s) (hle : Later s t) : Carried g db C holders t :=
  ⟨h.1.later hle, fun hC => (h.2 hC).later hle⟩

/-- The row said `st`. -/
def Told (g : Gid) (gid : Gid) (st : DecisionState) (s : World) : Prop :=
  gid = g → (st = .commit → s.ledger.verdict = some true) ∧ (st = .abort → s.ledger.verdict = some false)

variable {st : DecisionState}

lemma Told.later (h : Told g gid st s) (hle : Later s t) : Told g gid st t :=
  fun hgid => ⟨fun hst => hle.verdict _ ((h hgid).1 hst), fun hst => hle.verdict _ ((h hgid).2 hst)⟩

lemma told_of_row (h : s.ledger.row = some st) : Told g gid st s := by
  intro _
  constructor
  all_goals
    rintro rfl
    cases hl : s.ledger with
    | decided b => cases b <;> simp_all [Ledger.row, Ledger.verdict]
    | absent | preparing | closed v => simp [hl, Ledger.row] at h

lemma Told.may (h : Told g gid st s) (hst : st ≠ .preparing) (sh : ShardRef) (d : String) :
    May g (.finish sh d (st = .commit) gid) s := by
  intro hgid
  cases st with
  | preparing => exact absurd rfl hst
  | commit => exact .inl (by simpa using (h hgid).1 rfl)
  | abort => exact .inl (by simpa using (h hgid).2 rfl)

lemma finish_gone {sh : ShardRef} {commit : Bool} {r : Reply} (he : Exec g db (.finish sh db commit g) s t r)
    (hr : ∀ f, errorOf (some r) = some f → isGonePreparedXact f = true) : t.xact sh ≠ .prepared := by
  cases he with
  | answered e =>
    cases e with
    | finish _ hx => cases commit <;> simp
    | finishOther _ _ _ _ hne => exact absurd rfl hne
  | refused f honest | failed f _ honest => exact honest rfl (hr f rfl)

lemma May.verdict {sh : ShardRef} {d : String} {commit : Bool} (h : May g (.finish sh d commit g) s) (hle : Later s t)
    (hv : t.ledger.verdict = some true) : s.ledger.verdict = some true := by
  rcases h rfl with hc | ⟨hc, -⟩
  · rw [hc, ← hle.verdict _ hc, hv]
  · exact hc

lemma select_told {u : World} (he : Exec g db (.selectState gid) s t (.state (some st)))
    (hle : Later t u) : Told g gid st u := by
  cases he with | answered e =>
  generalize hr : Reply.state (some st) = r at e
  cases e with
  | selectState => exact (told_of_row (by simpa using hr.symm)).later hle
  | selectOther st' hne => exact fun hgid => absurd hgid hne

lemma stale_told {timeout : Int} {n : Nat} {u : World}
    (he : Exec g db (.abortStale gid timeout) s t (.rows n)) (hn : n ≠ 0) (hle : Later t u) : Told g gid .abort u := by
  cases he with | answered e =>
  generalize hr : Reply.rows n = r at e
  cases e with
  | abortStale =>
    split at hr
    · rename_i hl
      refine (told_of_row (s := { s with ledger := s.ledger.decide false }) ?_).later hle
      simp [hl, Ledger.decide, Ledger.row]
    · exact absurd (by simpa using hr) hn
  | abortStaleNot => exact absurd (by simpa using hr) hn
  | abortOther _ _ hne => exact fun hgid => absurd hgid hne

section

variable {A : Type} {K : A → World → Prop}

lemma safe_call {K : Option Reply → World → Prop} {c : Call} (hmay : May g c s)
    (h : ∀ o t, Later s t → (discipline g db W plain).Inv t → (discipline g db W plain).Answered s t c o → K o t) :
    (discipline g db W plain).Safe K (Prog.call c) s :=
  Discipline.Safe.call hmay h

lemma safe_finishHolders (commit : Bool) (hs : List Holder)
    (hmay : ∀ h ∈ hs, May g (.finish h.shard h.database commit gid) s) :
    (discipline g db W plain).Safe (fun rest t => Later s t ∧ ∃ done, hs = done ++ rest ∧
      ∀ h ∈ done, gid = g → t.ledger.verdict = some true → h.database = db →
        t.xact h.shard ≠ .prepared) (Resolver.finishHolders gid commit hs) s := by
  induction hs generalizing s with
  | nil => exact ⟨.refl _, [], rfl, by simp⟩
  | cons h hs ih =>
    have hmay₀ := hmay h (by simp)
    rw [Resolver.finishHolders]
    refine Discipline.Safe.bind (safe_call hmay₀ fun o t hle hi ha => ?_)
    have hmay' : ∀ h' ∈ hs, May g (.finish h'.shard h'.database commit gid) t :=
      fun h' hh' => (hmay h' (by simp [hh'])).later hle
    -- what the rest of the loop leaves, with `h` done
    have hnext : (∀ f, errorOf o = some f → isGonePreparedXact f = true) →
        (discipline g db W plain).Safe (fun rest u => Later s u ∧ ∃ done, h :: hs = done ++ rest ∧
          ∀ h' ∈ done, gid = g → u.ledger.verdict = some true → h'.database = db →
            u.xact h'.shard ≠ .prepared) (Resolver.finishHolders gid commit hs) t := by
      intro ho
      refine (ih hmay').imp ?_
      rintro rest u ⟨hle', done, rfl, hdone⟩
      refine ⟨hle.trans hle', h :: done, rfl, ?_⟩
      intro h' hh' hgid hv hdb
      rcases List.mem_cons.mp hh' with rfl | hh'
      · cases o with
        | none => simpa [isGonePreparedXact, lost, errorf, codeConnectionFailure] using ho lost rfl
        | some r =>
          obtain ⟨s₀, s₁, h₀, ⟨P, T, hinv⟩, he, h₁⟩ := ha r rfl
          subst hgid hdb
          -- the verdict stood already when the statement ran: `May` asked for one
          have hv₀ := h₀.verdict _ (hmay₀.verdict (hle.trans hle') hv)
          have hv₁ := (hinv.pass (hmay₀.later h₀) he).2.verdict _ hv₀
          exact fun hp => finish_gone he ho ((h₁.trans hle').prepared hv₁ _ hp)
      · exact hdone h' hh' hgid hv hdb
    split
    · rename_i f hf
      split
      · rename_i hgone
        exact hnext fun f' hf' => by rw [hf, Option.some.injEq] at hf'; exact hf' ▸ hgone
      · exact ⟨hle, [], rfl, by simp⟩
    · rename_i hf
      exact hnext fun f' hf' => by simp [hf] at hf'

variable {C : Prop} {complete : Bool} {out : Outcome} {shards : List ShardRef}

lemma safe_applyDecision {st : DecisionState} (hst : st ≠ .preparing) (htold : Told g gid st s)
    (hcarried : Carried g db C holders s) (hcov : gid = g → st = .commit → complete = true → Covered g db holders s) :
    (discipline g db W plain).Safe (fun x t => Carried g db C x.1 t)
      (Resolver.applyDecision gid st holders complete out) s := by
  unfold Resolver.applyDecision
  refine Discipline.Safe.bind ((safe_finishHolders _ _ fun h _ =>
    htold.may hst h.shard h.database).imp ?_)
  rintro rest t ⟨hle, done, hdone, hgone⟩
  -- what is still prepared is among the holders left
  have hcovered : ∀ hs, hs = rest → Covered g db holders s → Covered g db (holders.set gid hs) t := by
    rintro hs rfl hc
    refine ⟨hle.verdict _ hc.1, fun sh hp => ?_⟩
    have hmem := (hc.later hle).2 sh hp
    by_cases hgid : g = gid
    · subst hgid
      rw [hdone] at hmem
      rcases List.mem_append.mp hmem with hmem | hmem
      · exact absurd hp (hgone _ hmem rfl (hle.verdict _ hc.1) rfl)
      · simpa using hmem
    · simpa [hgid] using hmem
  have hcarried' : ∀ hs, hs = rest → Carried g db C (holders.set gid hs) t := by
    refine fun hs heq => ⟨fun hne => hle.begun (hcarried.1 ?_), fun hC => hcovered hs heq (hcarried.2 hC)⟩
    by_cases hgid : g = gid
    · subst hgid
      rw [hdone]
      subst heq
      simp_all
    · simpa [hgid] using hne
  cases rest with
  | cons h hs => exact hcarried' _ rfl
  | nil =>
    dsimp only
    split
    · exact hcarried' _ rfl
    · rename_i hcomplete
      have hmay : May g (.deleteState gid st) t := by
        refine fun hgid => ⟨hst, fun hc => ?_⟩
        have hc' := hcovered [] rfl (hcov hgid hc (by simpa using hcomplete))
        exact ⟨hc'.1, fun sh hp => by simpa [hgid] using hc'.2 sh hp⟩
      refine Discipline.Safe.bind (safe_call hmay fun o u hle' _ _ => ?_)
      split <;> exact (hcarried' _ rfl).later hle'

lemma safe_resolveDecision (r : Resolver) {C : Prop} {d : Decision} {complete : Bool}
    {out : Outcome} (htold : Told g d.gid d.state s) (hcarried : Carried g db C holders s)
    (hC : d.gid = g → d.state = .commit → complete = true → C) :
    (discipline g db W plain).Safe (fun x t => Carried g db C x.1 t)
      (r.resolveDecision d holders complete out) s := by
  unfold Resolver.resolveDecision
  split
  · rename_i hst
    exact safe_applyDecision hst htold hcarried fun hgid hc hcomplete =>
      hcarried.2 (hC hgid hc hcomplete)
  split
  · exact hcarried
  refine Discipline.Safe.bind (safe_call trivial fun o t hle _ ha => ?_)
  split
  · refine Discipline.Safe.bind (safe_call trivial fun o' u hle' _ ha' => ?_)
    have hlast := hcarried.later (hle.trans hle')
    split
    · exact hlast
    · exact hlast
    · rename_i st hst
      obtain ⟨s₀, s₁, h₀, hi₀, he, h₁⟩ := ha' _ rfl
      exact safe_applyDecision hst (select_told he h₁) hlast (by simp)
    · exact hlast
  · rename_i n hn
    obtain ⟨s₀, s₁, h₀, hi₀, he, h₁⟩ := ha _ rfl
    exact safe_applyDecision (by simp) (stale_told he hn h₁) (hcarried.later hle) (by simp)
  · exact hcarried.later hle

lemma safe_resolveDecisions (r : Resolver) (ds : List Decision)
    (htold : ∀ d ∈ ds, Told g d.gid d.state s) (hcarried : Carried g db C holders s)
    (hC : ∀ d ∈ ds, d.gid = g → d.state = .commit → complete = true → C) :
    (discipline g db W plain).Safe (fun x t => Carried g db C x.1 t)
      (r.resolveDecisions complete ds holders out) s := by
  induction ds generalizing s holders out with
  | nil => exact hcarried
  | cons d ds ih =>
    rw [Resolver.resolveDecisions]
    refine Discipline.Safe.bind ((safe_resolveDecision r (htold d (by simp)) hcarried
      (hC d (by simp))).keep.imp ?_)
    rintro ⟨holders', out', resolved⟩ t ⟨hcarried', hle⟩
    exact ih (fun d' hd' => (htold d' (by simp [hd'])).later hle) hcarried'
      fun d' hd' => hC d' (by simp [hd'])

lemma safe_sweepHolders (commit : Bool) (hs : List Holder) {failed : Bool}
    (hmay : ∀ h ∈ hs, May g (.finish h.shard h.database commit gid) s) :
    (discipline g db W plain).Safe (fun _ _ => True)
      (Resolver.sweepHolders gid commit hs out failed) s := by
  induction hs generalizing s out failed with
  | nil => trivial
  | cons h hs ih =>
    rw [Resolver.sweepHolders]
    refine Discipline.Safe.bind (safe_call (hmay h (by simp)) fun o t hle _ _ => ?_)
    split <;> exact ih fun h' hh' => (hmay h' (by simp [hh'])).later hle

/-- A gid whose row is gone: decided abort, or decided commit and finished. -/
lemma Inv.may_of_no_row {P : Set Call} {T : Sent} (h : Inv g W plain P T s)
    (hbegun : s.ledger ≠ .absent) (hrow : s.ledger.row = none) (sh : ShardRef) (d : String) :
    May g (.finish sh d false g) s := by
  intro _
  cases hl : s.ledger with
  | absent => exact absurd hl hbegun
  | preparing => simp [hl, Ledger.row] at hrow
  | decided b => cases b <;> simp [hl, Ledger.row] at hrow
  | closed v =>
    rcases v with _ | _ | _
    · exact absurd hl h.not_dropped
    · exact .inl rfl
    · exact .inr ⟨rfl, h.closed_done hl⟩

lemma Inv.may_sweep {P : Set Call} {T : Sent} (h : Inv g W plain P T s)
    (hbegun : gid = g → s.ledger ≠ .absent) {st : Option DecisionState}
    (hst : st ≠ some .preparing) (he : Exec g db (.selectState gid) s t (.state st)) (sh : ShardRef) (d : String) :
    May g (.finish sh d (st = some .commit) gid) s := by
  cases he with | answered e =>
  generalize hr : Reply.state st = r at e
  cases e with
  | selectState =>
    have hrow : st = s.ledger.row := by simpa using hr
    cases st with
    | none => exact h.may_of_no_row (hbegun rfl) hrow.symm sh d
    | some st => simpa using (told_of_row hrow.symm).may (by simpa using hst) sh d
  | selectOther st' hne => exact fun hgid => absurd hgid hne

lemma safe_sweepGids (gids : List Gid) {failed : Bool} (hbegun : g ∈ gids → s.ledger ≠ .absent) :
    (discipline g db W plain).Safe (fun _ _ => True)
      (Resolver.sweepGids holders gids out failed) s := by
  induction gids generalizing s out failed with
  | nil => trivial
  | cons gid gids ih =>
    rw [Resolver.sweepGids]
    have hrest : ∀ {u out failed}, Later s u → (discipline g db W plain).Safe (fun _ _ => True)
        (Resolver.sweepGids holders gids out failed) u :=
      fun hle => ih fun hmem => hle.begun (hbegun (by simp [hmem]))
    refine Discipline.Safe.bind (safe_call trivial fun o t hle _ ha => ?_)
    split
    · exact hrest hle
    · rename_i st hst
      obtain ⟨s₀, s₁, h₀, ⟨P, T, hinv⟩, he, h₁⟩ := ha _ rfl
      have hle₀ := (hinv.pass (c := .selectState gid) trivial he).2.trans h₁
      have hmay : ∀ h ∈ holders.at gid,
          May g (.finish h.shard h.database (st = some .commit) gid) t := fun h _ =>
        (hinv.may_sweep (fun hgid => h₀.begun (hbegun (by simp [hgid]))) (by simpa using hst)
          he h.shard h.database).later hle₀
      exact Discipline.Safe.bind ((safe_sweepHolders _ _ hmay).keep.imp
        fun _ u hu => hrest (hle.trans hu.2))
    · exact hrest hle

/-- Every shard where the transaction is not over is listed. -/
def Listed (shards : List ShardRef) (s : World) : Prop := ∀ sh, (s.xact sh).Live → sh ∈ shards

lemma Listed.later (h : Listed shards s) (hle : Later s t) : Listed shards t := fun sh hl => h sh (hle.live sh hl)

lemma mem_collect {scans : List (ShardRef × Option Reply)} {h : Holder} : h ∈ (Resolver.collect scans).at gid ↔
      ∃ l, (h.shard, some (.held l)) ∈ scans ∧ (gid, h.database) ∈ l := by
  rw [Holders.mem_at]
  simp only [Resolver.collect, List.mem_flatMap, Prod.exists]
  constructor
  · rintro ⟨sh, o, hmem, hh⟩
    split at hh
    · rename_i l
      simp only [List.mem_map, Prod.mk.injEq, Prod.exists] at hh
      obtain ⟨_, d, hl, rfl, rfl⟩ := hh
      exact ⟨l, hmem, hl⟩
    · simp at hh
  · rintro ⟨l, hmem, hl⟩
    exact ⟨h.shard, _, hmem, List.mem_map.mpr ⟨(gid, h.database), hl, rfl⟩⟩

/-- One scan: what it lists was prepared, and with the verdict commit everything
prepared later was listed. -/
lemma scan_answered {sh : ShardRef} {l : List (Gid × String)}
    (ha : (discipline g db W plain).Answered s t (.listPrepared sh) (some (.held l))) :
    (∀ d, (g, d) ∈ l → t.ledger ≠ .absent) ∧
    (gidPrefix.toList <+: g.toList → s.ledger.verdict = some true → t.xact sh = .prepared →
      (g, db) ∈ l) := by
  obtain ⟨s₀, s₁, h₀, ⟨P, T, hinv⟩, he, h₁⟩ := ha _ rfl
  cases he with | answered e =>
  cases e with | listPrepared _ _ hl =>
  constructor
  · intro d hd
    have hprep := ((hl d).mp hd).2.1
    exact h₁.begun (hinv.begin_heard (hinv.prepare_begun sh (.inr (hinv.prepared_made sh hprep))))
  · intro hg hv hp
    exact (hl db).mpr ⟨hg, h₁.prepared (h₀.verdict _ hv) sh hp, rfl⟩

lemma carried_of_scans (hg : gidPrefix.toList <+: g.toList) {os : List (Option Reply)}
    (hos : List.Forall₂ ((discipline g db W plain).Answered s t) (shards.map .listPrepared) os) (hle : Later s t)
    (hC : C → s.ledger.verdict = some true ∧ Listed shards s ∧ os.countP Resolver.scanFailed = 0) :
    Carried g db C (Resolver.collect (shards.zip os)) t := by
  have hscan : ∀ {sh o}, (sh, o) ∈ shards.zip os →
      (discipline g db W plain).Answered s t (.listPrepared sh) o := by
    intro sh o hmem
    rw [List.forall₂_map_left_iff] at hos
    exact List.forall₂_zip hos hmem
  constructor
  · intro hne
    obtain ⟨h, hh⟩ := List.exists_mem_of_ne_nil _ hne
    obtain ⟨l, hmem, hl⟩ := mem_collect.mp hh
    exact (scan_answered (hscan hmem)).1 _ hl
  · intro c
    obtain ⟨hv, hlisted, hall⟩ := hC c
    refine ⟨hle.verdict _ hv, fun sh hp => ?_⟩
    have hsh : sh ∈ shards := hlisted.later hle sh (by simp [hp])
    obtain ⟨o, ho⟩ : ∃ o, (sh, o) ∈ shards.zip os := by
      have hfst : (shards.zip os).map Prod.fst = shards := List.map_fst_zip (by simpa using hos.length_eq.le)
      rw [← hfst] at hsh
      simpa using hsh
    have hheld : ∃ l, o = some (.held l) := by
      have := List.countP_eq_zero.mp hall o (List.of_mem_zip ho).2
      unfold Resolver.scanFailed at this
      split at this
      · exact ⟨_, rfl⟩
      · simp at this
    obtain ⟨l, rfl⟩ := hheld
    exact mem_collect.mpr ⟨l, ho, (scan_answered (hscan ho)).2 hg hv hp⟩

/-- The rows read: each tells what it says of the transaction. -/
lemma read_told {ds : List Decision} {u : World}
    (he : Exec g db .readDecisions s t (.decisions ds)) (hle : Later t u) : ∀ d ∈ ds, Told g d.gid d.state u := by
  cases he with | answered e =>
  cases e with | readDecisions _ hds =>
  intro d hd hgid
  have hmem : d.state ∈ (ds.filter (·.gid = g)).map (·.state) := List.mem_map.mpr ⟨d, by simpa [hgid] using hd, rfl⟩
  rw [hds, Option.mem_toList] at hmem
  exact (told_of_row hmem).later hle hgid

lemma list_listed {u : World} (he : Exec g db (.listShards "") s t (.shards shards))
    (hi : (discipline g db W plain).Inv s) (hle : Later t u) : Listed shards u := by
  cases he with | answered e =>
  generalize hr : Reply.shards shards = r at e
  cases e with | listShards =>
  obtain ⟨P, T, hinv⟩ := hi
  refine Listed.later (fun sh hl => ?_) hle
  rw [Reply.shards.injEq] at hr
  simpa [hr] using hinv.live_listed sh hl

lemma safe_resolve (hg : gidPrefix.toList <+: g.toList) (r : Resolver) (shardSet : String) :
    (discipline g db W plain).Safe (fun _ _ => True) (r.resolve shardSet) s := by
  unfold Resolver.resolve
  refine Discipline.Safe.bind (safe_call trivial fun o t _ _ ha => ?_)
  split
  · rename_i ds
    obtain ⟨s₀, s₁, h₀, -, he, h₁⟩ := ha _ rfl
    have htold := read_told he h₁
    split
    · trivial
    refine Discipline.Safe.bind (safe_call trivial fun o' u hle _ ha' => ?_)
    split
    · rename_i shards
      obtain ⟨s₂, s₃, h₂, hi₂, he', h₃⟩ := ha' _ rfl
      refine Discipline.Safe.bind ⟨?_, fun os v hle' _ hos => ?_⟩
      · intro c hc
        obtain ⟨sh, -, rfl⟩ := List.mem_map.mp hc
        trivial
      -- a commit row was read, and every shard was searched after it
      have hcarried : Carried g db ((∃ d ∈ ds, d.gid = g ∧ d.state = .commit) ∧
          shardSet = "" ∧ os.countP Resolver.scanFailed = 0)
          (Resolver.collect (shards.zip os)) v := by
        refine carried_of_scans hg hos hle' ?_
        rintro ⟨⟨d, hd, hgid, hst⟩, rfl, hall⟩
        exact ⟨hle.verdict _ ((htold d hd hgid).1 hst), list_listed he' hi₂ h₃, hall⟩
      refine Discipline.Safe.bind ((safe_resolveDecisions r ds
        (fun d hd => (htold d hd).later (hle.trans hle')) hcarried ?_).imp ?_)
      · intro d hd hgid hst hcomplete
        exact ⟨⟨d, hd, hgid, hst⟩, by simpa using hcomplete⟩
      · rintro ⟨holders, out⟩ w hcarried'
        refine Discipline.Safe.bind ((safe_sweepGids _ fun hmem => hcarried'.1 ?_).imp
          fun _ _ _ => trivial)
        obtain ⟨h, hmem⟩ : ∃ h, (g, h) ∈ holders := by simpa using hmem
        exact List.ne_nil_of_mem (Holders.mem_at.mpr hmem)
    · trivial
  · trivial

end

end PgShard.TwoPhase
