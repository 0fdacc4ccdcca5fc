import PgShard.Hoare.Leads
import PgShard.Planner.Statement

/-!
# The shards of a keyed plan

Once its parameters are bound, a keyed plan goes to one list of shards, and each of its key
predicates locates its values on exactly these.
-/

namespace PgShard.Planner

open Hoare Key

variable {sess : Session} {passes : Passes} {keys : Keys}

/-- A key predicate, its parameters bound, that is on these shards. -/
def OnShards (keys : Keys) (shards : List Nat) (t : PlanTerm) : Prop :=
  ∃ values, termValues keys t = .ok values ∧ termShards keys t values = .ok shards

lemma agree_eq {multiRow : Bool} {found : Option (List Nat)} {each : List (List Nat)}
    {shards : List Nat} (h : agree multiRow found each = .ok shards) :
    (∀ s, found = some s → s = shards) ∧ ∀ s ∈ each, s = shards := by
  induction each generalizing found with
  | nil =>
    cases h
    refine ⟨?_, by simp⟩
    rintro s rfl
    rfl
  | cons s rest ih =>
    cases found with
    | none =>
      obtain ⟨hs, hrest⟩ := @ih (some s) h
      refine ⟨by simp, ?_⟩
      intro s' hs'
      rcases List.mem_cons.mp hs' with rfl | hs'
      · exact hs s' rfl
      · exact hrest s' hs'
    | some found =>
      unfold agree at h
      split at h
      · next heq =>
        subst heq
        obtain ⟨hs, hrest⟩ := ih h
        refine ⟨hs, ?_⟩
        intro s' hs'
        rcases List.mem_cons.mp hs' with rfl | hs'
        · exact hs s' rfl
        · exact hrest s' hs'
      · split at h <;> cases h

variable {p : Plan} {w : Walker} {i : Nat} {r : Rel}

lemma finish_shards {home : Nat} {p' : Plan} {values : List (List Value)} (h : p.finish keys home values = .ok p') :
    ∀ x ∈ p.terms.zip values, termShards keys x.1 x.2 = .ok p'.shards := by
  obtain ⟨each, heach, h⟩ := bind_eq_ok h
  obtain ⟨shards, hagree, h⟩ := bind_eq_ok h
  dsimp only at h
  split at h
  · cases h
  cases h
  intro x hx
  obtain ⟨s, hs, hmem⟩ := mapM_eq_ok heach hx
  rw [(agree_eq hagree).2 s hmem] at hs
  exact hs

lemma mem_zip_map {α β : Type} {f : α → β} {xs : List α} {x : α} (h : x ∈ xs) : (x, f x) ∈ xs.zip (xs.map f) := by
  rw [List.zip_map_right, List.mem_map]
  refine ⟨(x, x), ?_, rfl⟩
  obtain ⟨i, hi⟩ := List.mem_iff_getElem?.mp h
  apply List.mem_of_getElem? (i := i)
  simp [List.getElem?_zip_eq_some, hi]

/-- The plan of a walk that found a key predicate for each sharded relation. -/
lemma decideRels_keyed {stmt : String} {write multiRow : Bool} {p' : Plan} (hcount : w.count .sharded ≠ 0)
    (hterms : w.sharded.any (fun (_, i) => w.groupTerms (w.root i) = []) = false)
    (h : decideRels passes keys sess stmt write w multiRow = .ok p) (hres : p.resolve keys sess.homeShard = .ok p') :
    ∀ t ∈ w.planTerms, OnShards keys p'.shards t := by
  intro t ht
  unfold decideRels at h
  rw [if_neg hcount, if_neg (by simp [hterms])] at h
  dsimp only at h
  unfold Plan.resolve at hres
  split at h
  · next hdef =>
    cases h
    dsimp only at hres
    rw [hdef, if_neg (by simp)] at hres
    obtain ⟨values, hvalues, hres⟩ := bind_eq_ok hres
    obtain ⟨vs, hvs, hmem⟩ := mapM_zip hvalues ht
    exact ⟨vs, hvs, finish_shards hres _ hmem⟩
  · next hdef =>
    have hfin : p.deferred = false := by
      obtain ⟨_, _, h⟩ := bind_eq_ok h
      obtain ⟨_, _, h⟩ := bind_eq_ok h
      dsimp only at h
      split at h
      · cases h
      · cases h
        simpa using hdef
    rw [if_pos hfin] at hres
    cases hres
    have hparams : t.term.params = [] := by
      simp at hdef
      exact hdef t ht
    refine ⟨t.term.values, ?_, finish_shards h _ (mem_zip_map ht)⟩
    simp [termValues, hparams, pure, Except.pure, bind, Except.bind]

lemma mem_heads {x : Rel × Nat} (h : x ∈ w.sharded) : w.root x.2 ∈ w.heads := by
  have hfold : ∀ (scope : Scope) (hs : List Nat), (∀ n ∈ hs, n ∈ scope.foldl (fun hs (_, i) =>
        if w.root i ∈ hs then hs else hs ++ [w.root i]) hs) ∧
      ∀ x ∈ scope, w.root x.2 ∈ scope.foldl (fun hs (_, i) =>
        if w.root i ∈ hs then hs else hs ++ [w.root i]) hs := by
    intro scope
    induction scope with
    | nil => simp
    | cons y rest ih =>
      intro hs
      have hkeep : ∀ n ∈ hs, n ∈ (if w.root y.2 ∈ hs then hs else hs ++ [w.root y.2]) := by
        intro n hn
        split
        · exact hn
        · exact List.mem_append_left _ hn
      have hhead : w.root y.2 ∈ (if w.root y.2 ∈ hs then hs else hs ++ [w.root y.2]) := by
        split
        · assumption
        · simp
      rw [List.foldl_cons]
      refine ⟨fun n hn => (ih _).1 n (hkeep n hn), ?_⟩
      intro x hx
      rcases List.mem_cons.mp hx with rfl | hx
      · exact (ih _).1 _ hhead
      · exact (ih _).2 x hx
  exact (hfold w.sharded []).2 x h

lemma mem_sharded (hr : w.rels[i]? = some r) (hk : r.kind = .sharded) : (r, i) ∈ w.sharded := by
  refine List.mem_filter.mpr ⟨?_, by simpa using hk⟩
  apply List.mem_of_getElem? (i := i)
  simp [List.getElem?_zipIdx, hr]

lemma count_sharded (hr : w.rels[i]? = some r) (hk : r.kind = .sharded) : w.count .sharded ≠ 0 := by
  have hmem : r ∈ w.rels.filter (·.kind = .sharded) := by simp [List.mem_of_getElem? hr, hk]
  intro hzero
  rw [List.length_eq_zero_iff.mp hzero] at hmem
  cases hmem

lemma mem_planTerms {root : Rel} {t : KeyTerm} (hr : w.rels[i]? = some r) (hk : r.kind = .sharded)
    (ht : (i, t) ∈ w.terms) (hroot : w.rels[w.root i]? = some root) :
    ⟨t, root.shardKeyType, root.shardKeyChecked⟩ ∈ w.planTerms := by
  have hmem := mem_sharded hr hk
  unfold Walker.planTerms
  rw [List.mem_flatMap]
  refine ⟨w.root i, mem_heads hmem, ?_⟩
  rw [List.mem_map]
  refine ⟨t, ?_, by rw [hroot]⟩
  unfold Walker.groupTerms
  rw [List.mem_flatMap]
  refine ⟨(r, i), List.mem_filter.mpr ⟨hmem, by simp⟩, ?_⟩
  simpa [Walker.termsOf] using ht

end PgShard.Planner
