import PgShard.TwoPhase.Follow

/-!
# Atomicity of a multi-shard commit, and what its answer says
-/

namespace PgShard.TwoPhase

open Interleave

/-- Before a transaction ends: no decision row, and no part has ended or is
prepared. -/
structure Opening (s : World) : Prop where
  absent : s.ledger = .absent
  unended : ∀ sh, s.xact sh = .idle ∨ s.xact sh = .active ∨ s.xact sh = .failed
  listed : ∀ sh, (s.xact sh).Live → sh ∈ s.topology

variable {g : Gid} {db : String} {W : ShardRef → Prop} {plain : Prop} {s : World}

lemma Opening.inv (h : Opening s) : Inv g W plain ∅ ∅ s := by
  have hprep : ∀ sh, s.xact sh ≠ .prepared := by
    intro sh hx
    rcases h.unended sh with hu | hu | hu <;> simp [hu] at hx
  have hcom : ∀ sh, s.xact sh ≠ .committed := by
    intro sh hx
    rcases h.unended sh with hu | hu | hu <;> simp [hu] at hx
  refine ⟨Protocol.empty, ?_⟩
  constructor
  case live_listed => exact h.listed
  all_goals
    simp_all [h.absent, Ledger.verdict, Heard, Begun, Overtaken]

lemma passes_safe (hg : gidPrefix.toList <+: g.toList) (p : Program (Option Outcome))
    (hp : (machine g db).pass p) (s : World) (_ : (discipline g db W plain).Inv s) :
    (discipline g db W plain).Safe (fun _ _ => True) p s := by
  obtain ⟨r, shardSet, rfl⟩ := hp
  exact safe_resolve hg r shardSet

/-- No writer's transaction commits while another's is rolled back, and none
commits unless the decision row was updated to commit: in every state that can
be reached while `twoPhaseCommit` and any number of resolver passes run, with
statements refused, lost, delayed or answered with an error, the coordinator or
a pass stopped anywhere, backends dying and shards coming and going. Parts are
kept by shard, so the shards of `writers` are distinct. -/
theorem twoPhaseCommit_atomic (g : Gid) (hg : gidPrefix.toList <+: g.toList) (db : String)
    (writers readers : List Part) (hw : (writers.map (·.shard)).Nodup)
    (hr : (readers.map (·.shard)).Nodup) (s : World) (hs : Opening s) (y : Sys World Call Reply Answer (Option Outcome))
    (hy : Reachable (machine g db) s (twoPhaseCommit g writers readers) y) :
    (∀ w ∈ writers, ∀ w' ∈ writers, ¬(y.store.xact w.shard = .committed ∧ y.store.xact w'.shard = .rolledBack)) ∧
    (∀ w ∈ writers, y.store.xact w.shard = .committed → y.store.ledger.verdict = some true) := by
  have hfollows : (discipline g db (· ∈ writers.map (·.shard)) False).Follows (TwoPhaseEnd g)
      (twoPhaseCommit g writers readers) ∅ :=
    follows_twoPhaseCommit ⟨Protocol.empty, below_empty⟩ (by simp [IsWriter]) hw hr
  obtain ⟨P, T, hgov⟩ := Discipline.sound (passes_safe hg) hs.inv hfollows hy
  have hinv := hgov.store
  have hverdict : ∀ w ∈ writers, y.store.xact w.shard = .committed →
      y.store.ledger.verdict = some true := by
    intro w _ hx
    rcases hinv.committed_why w.shard hx with hv | ⟨o, ho, -⟩
    · exact hv
    · exact absurd (hinv.plain_alone w.shard (.inr ⟨o, ho⟩)).1 id
  refine ⟨fun w hw₁ w' hw₂ ⟨hc, hb⟩ => ?_, hverdict⟩
  rcases hinv.verdict_writers (hverdict w hw₁ hc) (.inl (List.mem_map_of_mem hw₂)) with hx | hx
  · simp [hb] at hx
  · simp [hb] at hx

def shardOne : ShardRef := ⟨"default", 1⟩
def shardTwo : ShardRef := ⟨"default", 2⟩

/-- A transaction open on two shards. -/
def twoShards : World where
  ledger := .absent
  topology := [shardOne, shardTwo]
  xact sh := if sh ∈ [shardOne, shardTwo] then .active else .idle
  assigned _ := true

lemma twoShards_opening : Opening twoShards where
  absent := rfl
  unended sh := by
    simp only [twoShards]
    split <;> simp
  listed sh h := by
    simp only [twoShards] at h
    split at h
    · assumption
    · simp [Xact.Live] at h

lemma twoShards_commits : ∃ s', Runs (machine "pgshard-s-1" "app")
    (twoPhaseCommit "pgshard-s-1" [⟨shardOne, true⟩, ⟨shardTwo, true⟩] []) twoShards
    ⟨some "COMMIT", none⟩ s' ∧ s'.xact shardOne = .committed ∧ s'.xact shardTwo = .committed := by
  exact ⟨_, .await .nil
    (.await (.cons (.answered (.currentXactId "701" rfl)) (.cons (.answered (.currentXactId "702" rfl)) .nil))
    (.await (.cons (.answered (.begin _ _ rfl)) .nil)
    (.await (.cons (.answered (.prepare rfl)) (.cons (.answered (.prepare rfl)) .nil))
    (.await (.cons (.answered .decideCommit) .nil)
    (.await (.cons (.answered (.commitPrepared rfl)) .nil)
    (.await (.cons (.answered (.commitPrepared rfl)) .nil)
    (.await (.cons (.answered (.delete 1)) .nil) .ret))))))), rfl, rfl⟩

/-- The transaction of `twoShards` can get to the point where both shards have
committed. -/
theorem twoPhaseCommit_atomic_twoShards :
    ∃ y : Sys World Call Reply Answer (Option Outcome), Reachable (machine "pgshard-s-1" "app") twoShards
        (twoPhaseCommit "pgshard-s-1" [⟨shardOne, true⟩, ⟨shardTwo, true⟩] []) y ∧
      y.store.xact shardTwo ≠ .rolledBack ∧ y.store.ledger.verdict = some true := by
  obtain ⟨s', hrun, hone, htwo⟩ := twoShards_commits
  have hatomic := twoPhaseCommit_atomic "pgshard-s-1" (by decide) "app"
    [⟨shardOne, true⟩, ⟨shardTwo, true⟩] [] (by decide) (by decide) twoShards twoShards_opening _
    hrun.initial
  exact ⟨_, hrun.initial, fun hback => hatomic.1 ⟨shardOne, true⟩ (by simp) ⟨shardTwo, true⟩ (by simp) ⟨hone, hback⟩,
    hatomic.2 ⟨shardOne, true⟩ (by simp) hone⟩

/-- In each of these states a recorded commit leaves every writer prepared or committed, and the decision row is gone
only once it was decided and, for a commit, no shard holds the transaction prepared. -/
theorem decision_outlives_prepared (g : Gid) (hg : gidPrefix.toList <+: g.toList) (db : String)
    (writers readers : List Part) (hw : (writers.map (·.shard)).Nodup) (hr : (readers.map (·.shard)).Nodup)
    (s : World) (hs : Opening s) (y : Sys World Call Reply Answer (Option Outcome))
    (hy : Reachable (machine g db) s (twoPhaseCommit g writers readers) y) :
    (y.store.ledger.verdict = some true → ∀ w ∈ writers, y.store.xact w.shard = .prepared ∨
      y.store.xact w.shard = .committed) ∧
    (y.store.ledger = .closed (some true) → ∀ sh, y.store.xact sh ≠ .prepared) ∧ y.store.ledger ≠ .closed none := by
  obtain ⟨P, T, hgov⟩ := Discipline.sound (D := discipline g db (· ∈ writers.map (·.shard)) False) (passes_safe hg) hs.inv
    (follows_twoPhaseCommit ⟨Protocol.empty, below_empty⟩ (by simp [IsWriter]) hw hr) hy
  have hinv := hgov.store
  exact ⟨fun hv w hw => hinv.verdict_writers hv (.inl (List.mem_map_of_mem hw)), hinv.closed_done, hinv.not_dropped⟩

theorem decision_outlives_prepared_twoShards : ∃ y : Sys World Call Reply Answer (Option Outcome),
    Reachable (machine "pgshard-s-1" "app") twoShards (twoPhaseCommit "pgshard-s-1" [⟨shardOne, true⟩, ⟨shardTwo, true⟩] []) y ∧
      y.store.ledger ≠ .closed none := by
  obtain ⟨s', hrun, -⟩ := twoShards_commits
  exact ⟨_, hrun.initial, (decision_outlives_prepared _ (by decide) _ _ _ (by decide) (by decide) _ twoShards_opening _
    hrun.initial).2.2⟩

end PgShard.TwoPhase
