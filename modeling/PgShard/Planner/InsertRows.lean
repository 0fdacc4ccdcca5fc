import PgShard.Planner.Above

/-!
# The rows of an INSERT

Every VALUES row of an INSERT into a sharded table gives one key predicate for the table, and
the walk over the rest of the statement joins the table to nothing.
-/

namespace PgShard.Planner

open Hoare Key

section

variable {cols seqCols : List String} {rows : List Node} {col : String} {k : Nat}

/-- A listed column has its slot at its place in the list. -/
lemma slot_listed {slot : String × Nat} (h : slot ∈ sequenceSlots cols seqCols rows)
    (hk : keyIndex cols slot.1 = some k) : slot.2 = k := by
  have hfold : ∀ (f : List (String × Nat) × Nat → String → List (String × Nat) × Nat) (cs : List String)
      (acc : List (String × Nat) × Nat),
      (∀ a c, ∀ x ∈ (f a c).1, x ∈ a.1 ∨ ∀ k, keyIndex cols x.1 = some k → x.2 = k) →
      (∀ x ∈ acc.1, ∀ k, keyIndex cols x.1 = some k → x.2 = k) →
      ∀ x ∈ (cs.foldl f acc).1, ∀ k, keyIndex cols x.1 = some k → x.2 = k := by
    intro f cs
    induction cs with
    | nil => exact fun acc _ hacc => hacc
    | cons c cs ih =>
      intro acc hf hacc
      apply ih _ hf
      intro x hx
      exact (hf acc c x hx).elim (hacc x) id
  refine hfold _ seqCols ([], cols.length) ?_ (by simp) slot h k hk
  rintro ⟨slots, next⟩ c x hx
  dsimp only at hx
  split at hx
  · next hnone =>
    rcases List.mem_append.mp hx with hold | hnew
    · exact .inl hold
    · cases List.mem_singleton.mp hnew
      refine .inr fun k hk => ?_
      simp [keyIndex, hnone] at hk
  · next back hback =>
    split at hx
    · rcases List.mem_append.mp hx with hold | hnew
      · exact .inl hold
      · cases List.mem_singleton.mp hnew
        refine .inr fun k hk => ?_
        simpa [keyIndex, hback] using hk
    · exact .inl hx

lemma mem_fillRow {items : List Node} {row param : Nat} {slots : List (String × Nat)}
    {fill : String × Nat × Nat} (h : fill ∈ fillRow items row param slots) :
    fill.2.1 = row ∧ ∃ slot ∈ slots, slot.1 = fill.1 ∧
      ∀ item, items[slot.2]? = some item → fillable item = true := by
  induction slots generalizing param with
  | nil => cases h
  | cons slot slots ih =>
    obtain ⟨c, idx⟩ := slot
    have hrest : ∀ p, fill ∈ fillRow items row p slots → fill.2.1 = row ∧ ∃ slot ∈ (c, idx) :: slots, slot.1 = fill.1 ∧
          ∀ item, items[slot.2]? = some item → fillable item = true := by
      intro p hp
      obtain ⟨hrow, slot, hmem, hslot⟩ := ih hp
      exact ⟨hrow, slot, List.mem_cons_of_mem _ hmem, hslot⟩
    unfold fillRow at h
    split at h
    · next item hitem =>
      split at h
      · next hf =>
        rcases List.mem_cons.mp h with rfl | h
        · refine ⟨rfl, (c, idx), by simp, rfl, ?_⟩
          intro item' hitem'
          rw [hitem] at hitem'
          cases hitem'
          exact hf
        · exact hrest _ h
      · exact hrest _ h
    · next hnone =>
      rcases List.mem_cons.mp h with rfl | h
      · refine ⟨rfl, (c, idx), by simp, rfl, ?_⟩
        intro item hitem
        rw [hnone] at hitem
        cases hitem
      · exact hrest _ h

lemma mem_fillRows {r : Rel} {width : Nat} {slots : List (String × Nat)} {first param : Nat}
    {fills : List (String × Nat × Nat)} {fill : String × Nat × Nat}
    (h : fillRows r width slots first param rows = .ok fills) (hmem : fill ∈ fills) :
    ∃ i row, rows[i]? = some row ∧ fill.2.1 = first + i ∧ ∃ slot ∈ slots, slot.1 = fill.1 ∧
      ∀ item, (rowItems row)[slot.2]? = some item → fillable item = true := by
  induction rows generalizing first param fills with
  | nil =>
    cases h
    cases hmem
  | cons n rest ih =>
    unfold fillRows at h
    split at h
    · cases h
    · obtain ⟨later, hlater, h⟩ := bind_eq_ok h
      cases h
      rcases List.mem_append.mp hmem with hhere | hlate
      · obtain ⟨hrow, hslot⟩ := mem_fillRow hhere
        exact ⟨0, n, rfl, hrow, hslot⟩
      · obtain ⟨i, row, hi, hrow, hslot⟩ := ih hlater hlate
        exact ⟨i + 1, row, hi, by omega, hslot⟩

/-- A row whose key is written out is not filled. -/
lemma rewriteInsert_written {s : InsertStmt Node} {r : Rel} {injected : List (String × Nat × Nat)}
    {i : Nat} {row item : Node} (h : rewriteInsert s r rows = .ok injected)
    (hk : keyIndex s.cols col = some k) (hrow : rows[i]? = some row)
    (hitem : (rowItems row)[k]? = some item) (hw : fillable item = false) :
    ∀ fill ∈ injected, fill.1 = col → fill.2.1 ≠ i := by
  intro fill hfill hcol hi
  unfold rewriteInsert at h
  dsimp only at h
  split at h
  · cases h
    cases hfill
  · obtain ⟨j, row', hj, hij, slot, hslot, hname, hfillable⟩ := mem_fillRows h hfill
    have hplace : slot.2 = k := slot_listed hslot (by rw [hname, hcol]; exact hk)
    have hsame : j = i := by omega
    rw [hsame, hrow] at hj
    cases hj
    rw [hplace] at hfillable
    rw [hfillable item hitem] at hw
    cases hw

/-- The key predicate of a row whose key is written out. -/
lemma insertTerms_row {s : InsertStmt Node} {r : Rel} {terms : List KeyTerm} {i : Nat}
    {row item : Node} (h : insertTerms s r = .ok terms) (hv : valuesOf s.selectStmt = some rows)
    (hk : keyIndex s.cols r.shardKey = some k) (hrow : rows[i]? = some row)
    (hitem : (rowItems row)[k]? = some item) (hw : fillable item = false) :
    ∃ t ∈ terms, rowTerm (some k) none row = .ok t := by
  obtain ⟨_, injected, hvals, -, hinj, hterms, -⟩ := insertTerms_ok h
  cases hvals.symm.trans hv
  unfold rowTerms at hterms
  dsimp only at hterms
  split at hterms
  · cases hterms
  have hfree : (injected.filter (·.1 = r.shardKey)).find? (·.2.1 = i) = none := by
    rw [List.find?_eq_none]
    intro fill hfill
    obtain ⟨hmem, hcol⟩ := List.mem_filter.mp hfill
    simpa using rewriteInsert_written hinj hk hrow hitem hw fill hmem (by simpa using hcol)
  have hzip : rows.zipIdx[i]? = some (row, i) := by simp [List.getElem?_zipIdx, hrow]
  obtain ⟨t, ht, hmem⟩ := mapM_eq_ok hterms (List.mem_of_getElem? hzip)
  refine ⟨t, hmem, ?_⟩
  simpa [hfree, hk] using ht

end

variable {groups : List (Nat × Nat)} {i : Nat} {r : Rel} {w : Walker}

lemma headOf_all {P : Nat → Prop} (h : ∀ link ∈ groups, P link.2) (hi : P i) : P (headOf groups i) := by
  unfold headOf
  induction groups generalizing i with
  | nil => exact hi
  | cons link rest ih =>
    rw [List.foldl_cons]
    apply ih fun l hl => h l (.tail _ hl)
    split
    · exact h link (by simp)
    · exact hi

lemma headOf_alone (h : ∀ link ∈ groups, link.1 ≠ i) : headOf groups i = i := by
  unfold headOf
  induction groups with
  | nil => rfl
  | cons link rest ih =>
    rw [List.foldl_cons, if_neg (h link (by simp)).symm]
    exact ih fun l hl => h l (.tail _ hl)

/-- The groups are among the relations found. -/
def Grouped (w : Walker) : Prop := ∀ link ∈ w.groups, link.1 < w.rels.length ∧ link.2 < w.rels.length

lemma grouped_above : Above 0 Grouped where
  low_le _ _ := Nat.zero_le _
  quiet w w' h hrels hgroups _ _ := by
    unfold Grouped
    rw [hrels, hgroups]
    exact h
  grow w r h := by
    intro link hlink
    have := h link hlink
    simp
    omega
  link w a b h _ ha _ hb := by
    unfold Grouped Walker.unify
    split
    · exact h
    · intro link hlink
      rcases List.mem_append.mp hlink with hold | hnew
      · exact h link hold
      · cases List.mem_singleton.mp hnew
        have hlt : ∀ l ∈ w.groups, l.2 < w.rels.length := fun l hl => (h l hl).2
        exact ⟨headOf_all (P := (· < _)) hlt hb, headOf_all (P := (· < _)) hlt ha⟩
  note w i t h _ _ := h

/-- The target of a write, joined to nothing, with the key predicates its rows gave. -/
structure Targeted (i : Nat) (r : Rel) (terms : List KeyTerm) (w : Walker) : Prop where
  target : w.target = some i
  rel : w.rels[i]? = some r
  alone : ∀ link ∈ w.groups, link.1 ≠ i ∧ link.2 ≠ i
  terms : ∀ t ∈ terms, (i, t) ∈ w.terms

lemma targeted_above (i : Nat) (r : Rel) (terms : List KeyTerm) : Above (i + 1) (Targeted i r terms) where
  low_le w h := (List.getElem?_eq_some_iff.mp h.rel).1
  quiet w w' h hrels hgroups hterms htarget := ⟨htarget ▸ h.target, hrels ▸ h.rel, hgroups ▸ h.alone, hterms ▸ h.terms⟩
  grow w r' h := by
    have hlt := (List.getElem?_eq_some_iff.mp h.rel).1
    exact { h with rel := (List.getElem?_append_left hlt).trans h.rel }
  link w a b h ha _ hb _ := by
    unfold Walker.unify
    split
    · exact h
    · refine { h with alone := fun link hlink => ?_ }
      rcases List.mem_append.mp hlink with hold | hnew
      · exact h.alone link hold
      · cases List.mem_singleton.mp hnew
        have hne : ∀ l ∈ w.groups, l.2 ≠ i := fun l hl => (h.alone l hl).2
        exact ⟨headOf_all (P := (· ≠ i)) hne (by omega), headOf_all (P := (· ≠ i)) hne (by omega)⟩
  note w j t h _ _ := { h with terms := fun t' ht' => List.mem_append_left _ (h.terms t' ht') }

lemma Targeted.root {terms : List KeyTerm} (h : Targeted i r terms w) : w.root i = i :=
  headOf_alone fun link hlink => (h.alone link hlink).1

variable {sess : Session}

lemma lookup_some {ctes : List String} {rv : RangeVar} {r' : Rel}
    (hr : lookupTable sess rv = .ok r) (h : lookup sess ctes rv = .ok (some r')) : r' = r := by
  unfold lookup at h
  rw [hr] at h
  split at h
  · cases h
  · cases h
    rfl

lemma addTarget_ok {rv : RangeVar} {what : String} {r' : Rel} {w' : Walker}
    (hr : lookupTable sess rv = .ok r) (h : addTarget sess rv what w = .ok (r', w')) :
    r' = r ∧ w' = { w with rels := w.rels ++ [r], target := some w.rels.length } := by
  unfold addTarget at h
  have h := run_read h
  obtain ⟨o, hx, h⟩ := run_lift h
  cases o with
  | none => cases h
  | some r'' =>
    cases h
    cases lookup_some hr hx
    exact ⟨rfl, rfl⟩

lemma Grouped.target (h : Grouped w) :
    Targeted w.rels.length r [] { w with rels := w.rels ++ [r], target := some w.rels.length } where
  target := rfl
  rel := by simp
  alone link hlink := by
    have := h link hlink
    omega
  terms := by simp

/-- The walk over an INSERT into a sharded table leaves the key predicates of its rows. -/
lemma walkInsert_targeted {s : InsertStmt Node} (hr : lookupTable sess s.relation = .ok r)
    (hk : r.kind = .sharded) (h : walkInsert sess s {} = .ok ((), w)) :
    ∃ i terms, insertTerms s r = .ok terms ∧ Targeted i r terms w := by
  unfold walkInsert at h
  obtain ⟨_, w₁, h₁, h⟩ := run_seq h
  have hgrouped : Grouped w₁ := grouped_above.withClause s.withClause {} () w₁ (by simp [Grouped]) h₁
  obtain ⟨r', w₂, h₂, h⟩ := run_seq h
  obtain ⟨rfl, rfl⟩ := addTarget_ok hr h₂
  have htarget := hgrouped.target (r := r')
  have h := run_read h
  simp only [if_pos hk, List.length_append, List.length_singleton, Nat.add_sub_cancel] at h
  obtain ⟨terms, hterms, h⟩ := run_lift h
  obtain ⟨_, _, ⟨⟩, h⟩ := run_seq h
  obtain ⟨_, w₃, h₃, h⟩ := run_seq h
  have hnoted : Targeted w₁.rels.length r' terms
      { w₁ with
        rels := w₁.rels ++ [r'], target := some w₁.rels.length
        terms := w₁.terms ++ terms.map fun t => (w₁.rels.length, t) } :=
    { htarget with terms := fun t ht => by simp [ht] }
  have hkeep : ∀ ns, Holds (Targeted w₁.rels.length r' terms) (exprs sess ns) :=
    (targeted_above w₁.rels.length r' terms).exprs
  exact ⟨_, terms, hterms, hkeep _ w₃ () w (hkeep _ _ () w₃ hnoted h₃) h⟩

end PgShard.Planner
