import PgShard.Migration.World

/-!
# A pass, up to the driving of what has begun

A pass reads the row, starts it when it is queued, and drives it. What a proof about the row has to say of
the way there is the same for every property of it, so the way is walked once.
-/

namespace PgShard.Migration

open Interleave

variable {Q : Type}

/-- The calls that only look. -/
def Call.looks : Call Q → Bool
  | .pending | .lockedDatabases | .queued | .shardSet | .placementDrift | .databaseHomeShard | .shards
  | .leader _ | .ctxErr | .sleep | .attemptsLeft | .rewriteColumns _ => true
  | _ => false

lemma exec_looks {x : Luck} {i : Nat} {c : Call Q} {w u : World Q} {r : c.Reply} (hc : c.looks = true)
    (h : exec x i c w = some (r, u)) : u = w := by
  cases c <;> first | exact (congrArg Prod.snd (Option.some.inj h)).symm | cases hc

lemma pendingRow_some {w : World Q} {m : DDLMigration Q} (h : w.pendingRow = some m) :
    m = w.row ∧ (m.state = .queued ∨ m.state = .running) := by
  unfold World.pendingRow at h
  split at h
  · rename_i hpending
    cases h
    simp only [Bool.and_eq_true, Bool.or_eq_true, decide_eq_true_eq] at hpending
    exact ⟨rfl, hpending.symm.imp_left And.right⟩
  · cases h

lemma answer_ok {A : Type} {a a' : A} {e : Option Err} (h : answer a e = .ok a') : a = a' := by
  cases e with
  | none => exact Except.ok.inj h
  | some e => cases h

/-- A pass is begun under the term in force, by a controller with no pass in flight, or under none. -/
lemma happen_begins {e : Event} {n : Nat} {w : World Q} {task : Prog Q Unit} (h : (happen e n w).1 = some task) :
    (∃ catalog, e = .begin true catalog ∧ task = runOnce ⟨w.term, catalog⟩ ∧ w.owner = none ∧
        (happen e n w).2 = { w with owner := some n }) ∨
      ∃ catalog, e = .begin false catalog ∧ task = runOnce ⟨0, catalog⟩ ∧ (happen e n w).2 = w := by
  cases e with
  | begin led catalog =>
    cases led with
    | true =>
      simp only [happen] at h ⊢
      split at h
      · rename_i hfree
        rw [if_pos hfree]
        exact .inl ⟨catalog, rfl, (Option.some.inj h).symm, Option.isNone_iff_eq_none.mp hfree, rfl⟩
      · cases h
    | false => exact .inr ⟨catalog, rfl, (Option.some.inj h).symm, rfl⟩
  | _ => cases h

section

variable {b : Bounds (World Q) (Call Q) Luck Event} {L : Logic (host Q) b} {i : Nat} {s : World Q}

lemma safe_look {c : Call Q} (hc : c.looks = true) {P : c.Reply → World Q → Prop}
    (h : ∀ x t r, L.rely i s t → L.inv t → b.call x i c t → exec x i c t = some (r, t) → P r t) :
    L.Safe i P (ask c) s := by
  intro t ht hinv x r u hx hexec
  obtain rfl := exec_looks hc hexec
  exact ⟨hinv, fun j _ => L.rely_refl j u, h x u r ht hinv hx hexec⟩

lemma safe_look_bind {c : Call Q} (hc : c.looks = true) {A : Type} {f : c.Reply → Prog Q A} {P : A → World Q → Prop}
    (h : ∀ x t r, L.rely i s t → L.inv t → b.call x i c t → exec x i c t = some (r, t) → L.Safe i P (f r) t) :
    L.Safe i P (ask c >>= f) s :=
  Logic.Safe.bind (safe_look hc h)

lemma safe_held {P : World Q → Prop} (hP : ∀ {s t}, L.rely i s t → P s → P t) (hs : P s) :
    L.Safe i (fun _ u => P u) held s := by
  refine safe_look_bind rfl fun x u r hu _ _ _ => ?_
  have hu := hP hu hs
  split
  · exact hu
  · exact hu
  · exact safe_look rfl fun x v r hv _ _ _ => hP hv hu

end

/-! ### What a pass knows of the row it holds -/

/-- `good` is what a pass knows of the row it holds; such a row it may write. -/
structure RowSpec {b : Bounds (World Q) (Call Q) Luck Event} (L : Logic (host Q) b) (i : Nat) (p : Pass) where
  good : DDLMigration Q → World Q → Prop
  good_later : ∀ {m s t}, L.rely i s t → good m s → good m t
  saves : ∀ {m w}, good m w → L.Safe i (fun _ u => good m u) (ask (.save p.term m)) w

/-- What a proof has to say of one shard at a time: the entry a shard is left with has `ended`, or the pass is
`lost`. -/
structure ShardsSpec {b : Bounds (World Q) (Call Q) Luck Event} (L : Logic (host Q) b) (i : Nat) (p : Pass)
    extends RowSpec L i p where
  ended : ShardMigration → Prop := fun _ => True
  lost : World Q → Prop := fun _ => False
  ended_final : ∀ {s}, s.state.final = true → ended s := by exact fun _ => trivial
  lost_later : ∀ {s t}, L.rely i s t → lost s → lost t := by exact fun _ => id
  refused : ∀ {m w}, lost w → w.cancelled i = false →
    L.Safe i (fun r _ => r ≠ .ok ()) (ask (.save p.term m)) w := by exact nofun
  direct : ∀ {m w}, good m w → m.strategy ≠ .rewrite
  gaveUp : ∀ {m w} key, good m w → m.state = .running →
    good (m.setEntry key { m.perShard key with state := .failed, error := "not applied: a shard failed" }) w
  applies : ∀ {m w key}, good m w → m.state = .running → key ∈ m.keys → (m.perShard key).state.final = false →
    L.Safe i (fun ms u => m.Only key ms.1 ∧ (good (ms.1.setEntry key ms.2) u ∧ ended ms.2 ∨ lost u))
      (applyOn p key m (m.perShard key)) w
  tallied : ∀ {m w}, good m w → (∀ key ∈ m.keys, ended (m.perShard key)) → good (tally m) w
  mirrors : ∀ {m w}, good m w → L.Safe i (fun _ _ => True) (ask (.mirrorAndSave p.term m)) w

namespace ShardsSpec

variable {b : Bounds (World Q) (Call Q) Luck Event} {L : Logic (host Q) b} {i : Nat} {p : Pass}
variable {m : DDLMigration Q} {w : World Q} (S : ShardsSpec L i p)

include S

lemma safe_driveShards {keys : List Key} (done : List Key) (hm : S.good m w) (hrunning : m.state = .running)
    (hkeys : m.keys = done ++ keys) (hdone : ∀ key ∈ done, S.ended (m.perShard key)) :
    L.Safe i (fun r u => ∀ m', r = some m' → S.good m' u ∧ ∀ key ∈ m'.keys, S.ended (m'.perShard key))
      (driveShards p keys m) w := by
  induction keys generalizing m w done with
  | nil =>
    rintro m' ⟨⟩
    rw [List.append_nil] at hkeys
    exact ⟨hm, hkeys ▸ hdone⟩
  | cons key keys ih =>
    have hsplit : m.keys = (done ++ [key]) ++ keys := by simp [hkeys]
    have hmore : ∀ m' : DDLMigration Q, m.Only key m' → S.ended (m'.perShard key) →
        ∀ key' ∈ done ++ [key], S.ended (m'.perShard key') := by
      intro m' honly hended key' hkey'
      by_cases hk : key' = key
      · exact hk ▸ hended
      · rw [honly.entries key' hk]
        exact hdone key' (by simpa [hk] using hkey')
    unfold driveShards
    dsimp only
    split
    · rename_i hfinal
      exact ih _ hm hrunning hsplit (hmore m (.refl key m) (S.ended_final hfinal))
    rename_i hopen
    split
    · refine ih _ (S.gaveUp key hm hrunning) hrunning hsplit
        (hmore _ ((DDLMigration.Only.refl key m).setEntry _) (S.ended_final ?_))
      rw [DDLMigration.entry_setEntry]
      rfl
    refine safe_look_bind rfl fun x u leads hu _ _ _ => ?_
    have hm := S.good_later hu hm
    split
    · exact nofun
    refine Logic.Safe.bind ((S.applies hm hrunning (by simp [hkeys]) (by simpa using hopen)).imp fun ms v hv => ?_)
    obtain ⟨m', s'⟩ := ms
    obtain ⟨honly, hv⟩ := hv
    refine safe_look_bind rfl fun x t done ht _ _ hexec => ?_
    cases hexec
    split
    · exact nofun
    rename_i hgoes
    rcases hv with ⟨hm', hended⟩ | hlost
    · refine Logic.Safe.bind ((S.saves (S.good_later ht hm')).imp fun r v hv => ?_)
      cases r with
      | error e => exact nofun
      | ok _ =>
        have honly' := honly.setEntry s'
        refine ih _ hv (honly'.state.trans hrunning) (honly'.keys.trans hsplit) (hmore _ honly' ?_)
        rwa [DDLMigration.entry_setEntry]
    · -- the write is refused
      refine Logic.Safe.bind ((S.refused (S.lost_later ht hlost) (by simpa using hgoes)).imp fun r v hr => ?_)
      cases r with
      | error e => exact nofun
      | ok _ => exact absurd rfl hr

lemma safe_finish (hm : S.good m w) : L.Safe i (fun _ _ => True) (finish p m) w := by
  unfold finish
  split
  · exact Logic.Safe.bind ((S.mirrors hm).imp fun _ _ _ => trivial)
  · exact Logic.Safe.bind ((S.saves hm).imp fun _ _ _ => trivial)

lemma safe_driveBegun (hm : S.good m w) (hrunning : m.state = .running) :
    L.Safe i (fun _ _ => True) (driveBegun p m) w := by
  unfold driveBegun
  rw [if_neg (S.direct hm)]
  refine Logic.Safe.bind ((S.safe_driveShards [] hm hrunning rfl nofun).imp fun r u hr => ?_)
  cases r with
  | none => trivial
  | some m' => exact S.safe_finish (S.tallied (hr m' rfl).1 (hr m' rfl).2)

end ShardsSpec

/-! ### The way to the driving of it -/

/-- What a proof has to say of a pass. `here` is what the pass counts on throughout, `idle` what it counts on
when it found no row to drive, and `driven` what it knows of a row that is running. -/
structure PassSpec {b : Bounds (World Q) (Call Q) Luck Event} (L : Logic (host Q) b) (i : Nat) (p : Pass)
    extends RowSpec L i p where
  here : World Q → Prop
  idle : World Q → Prop
  driven : DDLMigration Q → World Q → Prop
  here_later : ∀ {s t}, L.rely i s t → here s → here t
  idle_later : ∀ {s t}, L.rely i s t → idle s → idle t
  loaded : ∀ {x m w}, here w → L.inv w → b.call x i .pending w → w.pendingRow = some m → good m w
  unloaded : ∀ {w}, here w → L.inv w → w.pendingRow = none → idle w
  failed : ∀ {m w} error, good m w → good { m with state := .failed, error := error } w
  rehome : ∀ {m w} home, good m w → good { m with homeShard := home } w
  replan : ∀ {m w}, m.state = .queued ∨ m.state = .running → m.touched = false → good m w →
    good { m with state := .queued, shardSet := "" } w
  begins : ∀ {m w} serving keys, m.state = .queued → good m w →
    L.Safe i (fun r u => r = .ok () → driven (m.fresh serving keys) u) (ask (.save p.term (m.fresh serving keys))) w
  resumes : ∀ {m w}, good m w → m.state = .running → driven m w
  sweeps : ∀ {w} key, idle w → L.Safe i (fun _ u => idle u) (ask (.sweepShard key)) w
  returns : ∀ w, L.Safe i (fun _ _ => True) (ask .returned) w
  drives : ∀ {m w}, driven m w → m.state = .running → L.Safe i (fun _ _ => True) (driveBegun p m) w

namespace PassSpec

variable {b : Bounds (World Q) (Call Q) Luck Event} {L : Logic (host Q) b} {i : Nat} {p : Pass}
variable {m : DDLMigration Q} {w : World Q} (S : PassSpec L i p)

include S

lemma safe_fail (hm : S.good m w) (error : String) : L.Safe i (fun _ _ => True) (fail p m error) w :=
  Logic.Safe.bind ((S.saves (S.failed error hm)).imp fun _ _ _ => trivial)

lemma safe_placed (hm : S.good m w) : L.Safe i (fun r u => r = true → S.good m u) (placed p m) w := by
  unfold placed
  split
  · exact fun _ => hm
  refine safe_look_bind rfl fun x u r hu _ _ _ => ?_
  have hm' := S.good_later hu hm
  split
  · exact fun _ => hm'
  · exact fun _ => hm'
  · refine Logic.Safe.bind ((S.safe_fail hm' _).imp fun _ v _ => ?_)
    intro hno
    cases hno

/-- What is known of a row a part of the start hands on. -/
def Given (r : Option (DDLMigration Q)) (w : World Q) : Prop := ∀ m, r = some m → S.good m w

lemma given_some (hm : S.good m w) : S.Given (some m) w := fun _ h => Option.some.inj h ▸ hm

lemma given_none : S.Given none w := fun _ h => nomatch h

lemma safe_rehomed (hm : S.good m w) :
    L.Safe i (fun r u => S.Given r u ∧ ∀ m', r = some m' → m'.state = m.state) (rehomed p m) w := by
  have hnone : ∀ u, S.Given none u ∧ ∀ m', (none : Option (DDLMigration Q)) = some m' → m'.state = m.state :=
    fun u => ⟨S.given_none, fun _ h => nomatch h⟩
  have hsame : ∀ u m', S.good m' u → m'.state = m.state →
      S.Given (some m') u ∧ ∀ m'', some m' = some m'' → m''.state = m.state :=
    fun u m' hm' hstate => ⟨S.given_some hm', fun _ h => Option.some.inj h ▸ hstate⟩
  unfold rehomed
  split
  · exact hsame w m hm rfl
  refine safe_look_bind rfl fun x u r hu _ _ _ => ?_
  have hm := S.good_later hu hm
  split
  · exact hnone u
  · exact hsame u m hm rfl
  refine safe_look_bind rfl fun x v r hv _ _ _ => ?_
  have hm := S.good_later hv hm
  split
  · exact hnone v
  · exact hsame v _ (S.rehome _ hm) rfl
  · exact Logic.Safe.bind ((S.safe_fail hm _).imp fun _ t _ => hnone t)

lemma safe_targets (hm : S.good m w) : L.Safe i (fun _ u => S.good m u) (targets m) w := by
  unfold targets
  split
  · exact hm
  refine safe_look_bind rfl fun x u r hu _ _ _ => ?_
  split <;> exact S.good_later hu hm

/-- What is known of a row that is driven. -/
def Begun (r : Option (DDLMigration Q)) (w : World Q) : Prop := ∀ m, r = some m → S.driven m w ∧ m.state = .running

lemma begun_none : S.Begun none w := fun _ h => nomatch h

lemma safe_start (hm : S.good m w) (hqueued : m.state = .queued) (serving : String) :
    L.Safe i S.Begun (start p m serving) w := by
  unfold start
  refine Logic.Safe.bind ((S.safe_placed hm).imp fun r u hu => ?_)
  cases r with
  | false => exact S.begun_none
  | true =>
    refine Logic.Safe.bind ((S.safe_rehomed (hu rfl)).imp fun r v hv => ?_)
    obtain ⟨hgiven, hstate⟩ := hv
    cases r with
    | none => exact S.begun_none
    | some m' =>
      refine Logic.Safe.bind ((S.safe_targets (hgiven m' rfl)).imp fun r t hm' => ?_)
      cases r with
      | none => exact S.begun_none
      | some ids =>
        have hbegins := S.begins serving (targeted p m' ids) ((hstate m' rfl).trans hqueued) hm'
        refine Logic.Safe.bind (hbegins.imp fun r u hu => ?_)
        cases r with
        | error e => exact S.begun_none
        | ok _ => exact fun _ h => Option.some.inj h ▸ ⟨hu rfl, rfl⟩

lemma safe_begun (hm : S.good m w) (hpending : m.state = .queued ∨ m.state = .running) (serving : String) :
    L.Safe i S.Begun (begun p m serving) w := by
  unfold begun
  split
  · rename_i hqueued
    exact S.safe_start hm hqueued serving
  · rename_i hrunning
    have hrunning := hpending.resolve_left hrunning
    exact fun _ h => Option.some.inj h ▸ ⟨S.resumes hm hrunning, hrunning⟩

lemma safe_drive (hm : S.good m w) (hpending : m.state = .queued ∨ m.state = .running) :
    L.Safe i (fun _ _ => True) (drive p m) w := by
  have hgoes : ∀ {m' u} serving (k : Option (DDLMigration Q) → Prog Q Unit), k none = pure () →
      (∀ m, k (some m) = driveBegun p m) → S.good m' u → m'.state = .queued ∨ m'.state = .running →
      L.Safe i (fun _ _ => True) (begun p m' serving >>= k) u := by
    intro m' u serving k hnone hsome hm' hstate
    refine Logic.Safe.bind ((S.safe_begun hm' hstate serving).imp fun r v hr => ?_)
    cases r with
    | none =>
      rw [hnone]
      trivial
    | some m'' =>
      rw [hsome]
      exact S.drives (hr m'' rfl).1 (hr m'' rfl).2
  unfold drive
  refine safe_look_bind rfl fun x u r hu _ _ _ => ?_
  have hm := S.good_later hu hm
  cases r with
  | error e => trivial
  | ok serving =>
    dsimp only
    split
    · exact S.safe_fail hm _
    · rename_i huntouched
      split
      · rename_i hstraddled
        rw [hstraddled, Bool.true_and, Bool.not_eq_true] at huntouched
        exact hgoes serving _ rfl (fun _ => rfl) (S.replan hpending huntouched hm) (.inl rfl)
      · exact hgoes serving _ rfl (fun _ => rfl) hm hpending

lemma safe_sweepShards (ids : List Int) (hw : S.idle w) : L.Safe i (fun _ _ => True) (sweepShards ids) w := by
  induction ids generalizing w with
  | nil => trivial
  | cons id ids ih => exact Logic.Safe.bind ((S.sweeps _ hw).imp fun _ u hu => ih hu)

lemma safe_sweep (hw : S.idle w) : L.Safe i (fun _ _ => True) sweepRewriteArtifacts w := by
  refine safe_look_bind rfl fun x u r hu _ _ _ => ?_
  cases r with
  | error e => trivial
  | ok ids => exact S.safe_sweepShards ids (S.idle_later hu hw)

lemma safe_takeUp {found : Option (DDLMigration Q)} (hgood : S.Given found w)
    (hpending : ∀ m, found = some m → m.state = .queued ∨ m.state = .running) :
    L.Safe i (fun _ _ => True) (takeUp p found) w := by
  have hlater : ∀ {s t}, L.rely i s t → S.Given found s → S.Given found t := fun h hs m hm => S.good_later h (hs m hm)
  refine Logic.Safe.bind ((safe_held hlater hgood).imp fun r u hu => ?_)
  split
  · split
    · trivial
    · exact S.safe_drive (hu _ rfl) (hpending _ rfl)
  · trivial

lemma safe_runOnce (hw : S.here w) : L.Safe i (fun _ _ => True) (runOnce p) w := by
  unfold runOnce
  refine safe_look_bind rfl fun x u r hu hinv hx hexec => ?_
  have hhere := S.here_later hu hw
  cases r with
  | error e => exact S.returns u
  | ok found =>
    obtain ⟨found, others⟩ := found
    have hfound : u.pendingRow = found := congrArg Prod.fst (answer_ok (congrArg Prod.fst (Option.some.inj hexec)))
    have hgood : S.Given found u := fun m hm => S.loaded hhere hinv hx (hfound.trans hm)
    have hpending : ∀ m, found = some m → m.state = .queued ∨ m.state = .running :=
      fun m hm => (pendingRow_some (hfound.trans hm)).2
    dsimp only
    cases found with
    | some m =>
      exact Logic.Safe.bind ((S.safe_takeUp hgood hpending).imp fun _ v _ => S.returns v)
    | none =>
      have hnone : ∀ v, L.Safe i (fun _ _ => True) (takeUp p none >>= fun _ => ask .returned) v := fun v =>
        Logic.Safe.bind ((S.safe_takeUp S.given_none fun _ h => nomatch h).imp fun _ t _ => S.returns t)
      split
      · exact Logic.Safe.bind ((S.safe_sweep (S.unloaded hhere hinv hfound)).imp fun _ v _ => hnone v)
      · exact hnone u

end PassSpec

end PgShard.Migration
