import PgShard.Ddl.View
import PgShard.Planner.Completeness

/-!
# A routable view is its recorded projection

Two things make a view routable by its record: its columns are the base columns the record gives for
their names, and its rows over all shards are the rows of one view over all base rows.
-/

namespace PgShard.Ddl

open Hoare Planner

/-! ### The columns PostgreSQL gives a view -/

/-- What a reference of the select list is: a column of the base table, or something computed from
the row (the row itself, a function in attribute notation). -/
inductive Denoted where
  | column (base : String)
  | computed
  deriving DecidableEq, Repr

/-- The columns every table has beside its own. -/
def systemColumns : List String := ["tableoid", "cmax", "xmax", "cmin", "xmin", "ctid"]

/-- The base columns under the names the FROM item shows them by. -/
def shown (rv : RangeVar) (columns : List String) : List (String × String) :=
  let names := (rv.aliasClause.map Alias.colnames).getD []
  (columns.zipIdx.map fun (c, i) => (names[i]?.getD c, c)) ++ systemColumns.map fun c => (c, c)

def lastName (fields : List Field) : String :=
  match fields.getLast? with
  | some (.name s) => s
  | _ => ""

def denotes (rv : RangeVar) (columns : List String) (fields : List Field) : Denoted :=
  match (shown rv columns).lookup (lastName fields) with
  | some base => .column base
  | none => .computed

/-- The column one select-list item makes, unless the view's column list names it. -/
def viewColumn (rv : RangeVar) (columns : List String) : Node → String × Denoted
  | .resTarget name (some (.columnRef fields)) =>
    (if name = "" then lastName fields else name, denotes rv columns fields)
  | .resTarget name _ => (name, .computed)
  | _ => ("", .computed)

/-- The columns of the view, in order. -/
def viewColumns (v : ViewStmt) (s : SelectStmt Node) (rv : RangeVar) (columns : List String) :
    List (String × Denoted) :=
  s.targetList.zipIdx.map fun (t, i) =>
    (v.aliases[i]?.getD (viewColumn rv columns t).1, (viewColumn rv columns t).2)

/-- Every column of the view is the base column the record gives for its name. -/
def Recorded (v : ViewStmt) (columns : List String) (change : ViewChange) : Prop :=
  ∀ s rv, v.query = .selectStmt s → s.fromClause = [.rangeVar rv] →
    ∀ p ∈ viewColumns v s rv columns, ∃ base, p.2 = .column base ∧ change.columns.lookup p.1 = some base

/-- Every column of the view carries the name of a select-list item that is spelled with the base
column it denotes. -/
def Spelled (v : ViewStmt) (columns : List String) : Prop :=
  ∀ s rv, v.query = .selectStmt s → s.fromClause = [.rangeVar rv] →
    ∀ p ∈ viewColumns v s rv columns, ∃ base, p.2 = .column base ∧ spelled s.targetList p.1 = some base

/-- What PostgreSQL makes of the clauses of a view's query, for a given type of rows: which rows a
WHERE keeps, how an ORDER BY orders them, the numbers in LIMIT and OFFSET, whether the LIMIT is one
WITH TIES, and what becomes of the rows that are left. -/
structure Meaning (Row Out : Type) where
  holds : Node → Row → Bool
  order : List Node → Row → Row → Bool
  total : ∀ keys a b, order keys a b = true ∨ order keys b a = true
  trans : ∀ keys a b c, order keys a b = true → order keys b c = true → order keys a c = true
  /-- A NULL limits nothing. -/
  count : Node → Option Nat
  skip : Node → Nat
  ties : Bool
  project : List Node → Row → Out
  combine : SelectStmt Node → List Row → List Out

section

variable {Row Out : Type}

namespace Meaning

variable (m : Meaning Row Out) (s : SelectStmt Node)

def keep (r : Row) : Bool := s.whereClause.all (m.holds · r)

def before (a b : Row) : Bool := s.sortClause.isEmpty || m.order s.sortClause a b

def limit : Option Nat := s.limitCount.bind m.count

def offset : Nat := (s.limitOffset.map m.skip).getD 0

/-- The rows after a cut that tie with the last one before it. -/
def tied (rows : List Row) (n : Nat) : List Row :=
  match (rows.take n).getLast? with
  | some last => (rows.drop n).takeWhile (m.before s · last)
  | none => []

/-- What LIMIT and OFFSET leave of the rows in their order. -/
def cut (rows : List Row) : List Row :=
  let rest := rows.drop (m.offset s)
  match m.limit s with
  | none => rest
  | some n => rest.take n ++ if m.ties then m.tied s rest n else []

/-- The rows that come out of the kept rows in their order. -/
def output (rows : List Row) : List Out :=
  if s.distinctClause.isEmpty && s.groupClause.isEmpty && s.havingClause.isNone then
    (m.cut s rows).map (m.project s.targetList)
  else m.combine s rows

/-- A result the query may have over base rows: PostgreSQL takes them in any order the ORDER BY
allows. -/
def Possible (base : List Row) (out : List Out) : Prop :=
  ∃ rows, rows.Perm (base.filter (m.keep s)) ∧ rows.Pairwise (fun a b => m.before s a b = true) ∧
    out.Perm (m.output s rows)

/-- However the base rows are spread, what the view returns on all shards together is what it may
return over all of them. -/
def Splits (place : Row → Nat) : Prop :=
  ∀ shards : List (Nat × List Row), (shards.map Prod.fst).Nodup → (∀ p ∈ shards, ∀ r ∈ p.2, place r = p.1) →
    ∀ outs, List.Forall₂ (fun p out => m.Possible s p.2 out) shards outs →
      m.Possible s (shards.map Prod.snd).flatten outs.flatten

/-- Nothing is cut off, or everything is, or the rows the WHERE keeps are on one shard. -/
def Confined (place : Row → Nat) : Prop :=
  (m.limit s = none ∧ m.offset s = 0) ∨ m.limit s = some 0 ∨ (m.ties = true ∧ m.offset s = 0 ∧
      ∀ r r', m.keep s r = true → m.keep s r' = true → m.before s r r' = true) ∨
    ∀ r r', m.keep s r = true → m.keep s r' = true → place r = place r'

/-- A query that is a projection. -/
structure Plain (s : SelectStmt Node) : Prop where
  distinct : s.distinctClause = []
  group : s.groupClause = []
  having : s.havingClause = none

variable {m s}

lemma before_total (a b : Row) : m.before s a b = true ∨ m.before s b a = true := by
  unfold before
  rcases m.total s.sortClause a b with h | h <;> simp [h]

lemma before_trans {a b c : Row} (hab : m.before s a b = true) (hbc : m.before s b c = true) :
    m.before s a c = true := by
  unfold before at *
  cases hempty : s.sortClause.isEmpty with
  | true => rfl
  | false =>
    simp only [hempty, Bool.false_or] at hab hbc ⊢
    exact m.trans _ a b c hab hbc

lemma exists_arranged (rows : List Row) : ∃ l : List Row, l.Perm rows ∧ l.Pairwise fun a b => m.before s a b = true :=
  ⟨rows.mergeSort (m.before s), List.mergeSort_perm _ _,
    List.pairwise_mergeSort (fun _ _ _ => before_trans) (fun a b => by simpa using before_total a b) rows⟩

lemma Plain.output (h : Plain s) (rows : List Row) :
    m.output s rows = (m.cut s rows).map (m.project s.targetList) := by
  simp [Meaning.output, h.distinct, h.group, h.having]

lemma cut_nil : m.cut s [] = [] := by
  unfold cut tied
  split <;> simp

lemma cut_uncut (hl : m.limit s = none) (ho : m.offset s = 0) (rows : List Row) : m.cut s rows = rows := by
  simp [cut, hl, ho]

lemma cut_zero (hl : m.limit s = some 0) (rows : List Row) : m.cut s rows = [] := by
  simp [cut, tied, hl]

variable {n : Nat} {rows : List Row} {place : Row → Nat} {r r' : Row}

/-- With ties among all rows the count cuts nothing off. -/
lemma cut_ties (hl : m.limit s = some n) (hn : n ≠ 0) (ht : m.ties = true)
    (hpeers : ∀ a ∈ rows, ∀ b ∈ rows, m.before s a b = true) : m.cut s rows = rows.drop (m.offset s) := by
  unfold cut
  rw [hl, ht]
  simp only [if_true]
  generalize hrest : rows.drop (m.offset s) = rest
  have hmem : ∀ r ∈ rest, r ∈ rows := fun r hr => List.mem_of_mem_drop (hrest ▸ hr)
  unfold tied
  split
  · rename_i last hlast
    have hin : last ∈ rows := hmem _ (List.mem_of_mem_take (List.mem_of_getLast? hlast))
    rw [List.takeWhile_eq_self_iff.mpr, List.take_append_drop]
    intro r hr
    exact hpeers r (hmem r (List.mem_of_mem_drop hr)) last hin
  · rename_i hlast
    have hnil : rest = [] := by
      rw [List.getLast?_eq_none_iff, List.take_eq_nil_iff] at hlast
      exact hlast.resolve_left hn
    simp [hnil]

lemma length_cut_replicate (hl : m.limit s = some n) (r : Row) :
    (m.cut s (List.replicate (m.offset s + n) r)).length = n := by
  have hrest : (List.replicate (m.offset s + n) r).drop (m.offset s) = List.replicate n r := by
    simp
  have htied : m.tied s (List.replicate n r) n = [] := by
    unfold tied
    split <;> simp
  simp [cut, hl, hrest, htied]

/-- Without a kept row there is no result. -/
lemma Possible.nil (h : Plain s) {base : List Row} {out : List Out}
    (hnone : base.filter (m.keep s) = []) (hp : m.Possible s base out) : out = [] := by
  obtain ⟨rows, hperm, _, hout⟩ := hp
  rw [hnone] at hperm
  rw [hperm.eq_nil, h.output, cut_nil, List.map_nil] at hout
  exact hout.eq_nil

lemma kept_of_perm {base : List Row} (hperm : rows.Perm (base.filter (m.keep s))) : ∀ r ∈ rows, m.keep s r = true :=
  fun _ hr => (List.mem_filter.mp (hperm.mem_iff.mp hr)).2

/-- A query that cuts nothing off. -/
lemma possible_whole (h : Plain s) (hcut : ∀ rows : List Row, (∀ r ∈ rows, m.keep s r = true) → m.cut s rows = rows)
    (base : List Row) (out : List Out) :
    m.Possible s base out ↔ out.Perm ((base.filter (m.keep s)).map (m.project s.targetList)) := by
  constructor
  · rintro ⟨rows, hperm, _, hout⟩
    rw [h.output, hcut rows (kept_of_perm hperm)] at hout
    exact hout.trans (hperm.map _)
  · intro hout
    obtain ⟨rows, hperm, hsorted⟩ := @exists_arranged _ _ m s (base.filter (m.keep s))
    refine ⟨rows, hperm, hsorted, ?_⟩
    rw [h.output, hcut rows (kept_of_perm hperm)]
    exact hout.trans (hperm.map _).symm

lemma splits_whole (h : Plain s) (hcut : ∀ rows : List Row, (∀ r ∈ rows, m.keep s r = true) → m.cut s rows = rows)
    (place : Row → Nat) : m.Splits s place := by
  intro shards hids hrows outs houts
  clear hids hrows
  rw [possible_whole h hcut]
  induction houts with
  | nil => exact .refl _
  | @cons p out shards outs hp _ ih =>
    simp only [List.map_cons, List.flatten_cons, List.filter_append, List.map_append]
    exact ((possible_whole h hcut _ _).mp hp).append ih

lemma splits_empty (h : Plain s) (hl : m.limit s = some 0) (place : Row → Nat) : m.Splits s place := by
  intro shards hids hrows outs houts
  clear hids hrows
  have hnil : outs.flatten = [] := by
    induction houts with
    | nil => rfl
    | cons hp _ ih =>
      obtain ⟨rows, _, _, hout⟩ := hp
      rw [h.output, cut_zero hl] at hout
      rw [List.flatten_cons, hout.eq_nil, ih]
      rfl
  obtain ⟨l, hperm, hsorted⟩ := @exists_arranged _ _ m s ((shards.map Prod.snd).flatten.filter (m.keep s))
  exact ⟨l, hperm, hsorted, by rw [h.output, cut_zero hl, hnil]; exact .refl _⟩

lemma flatten_nil_of_filter (h : Plain s) {shards : List (Nat × List Row)} {outs : List (List Out)}
    (hnone : ∀ p ∈ shards, p.2.filter (m.keep s) = [])
    (houts : List.Forall₂ (fun p out => m.Possible s p.2 out) shards outs) :
    (shards.map Prod.snd).flatten.filter (m.keep s) = [] ∧ outs.flatten = [] := by
  induction houts with
  | nil => exact ⟨rfl, rfl⟩
  | @cons p out shards outs hp _ ih =>
    have hnil := hnone p List.mem_cons_self
    obtain ⟨hf, ho⟩ := ih fun q hq => hnone q (List.mem_cons_of_mem _ hq)
    simp only [List.map_cons, List.flatten_cons, List.filter_append, hnil, hf, hp.nil h hnil, ho]
    exact ⟨rfl, rfl⟩

/-- When at most one shard holds kept rows, its result is the view's. -/
lemma possible_alone (h : Plain s) {shards : List (Nat × List Row)} {outs : List (List Out)}
    (halone : shards.Pairwise fun p q => p.2.filter (m.keep s) = [] ∨ q.2.filter (m.keep s) = [])
    (houts : List.Forall₂ (fun p out => m.Possible s p.2 out) shards outs) :
    m.Possible s (shards.map Prod.snd).flatten outs.flatten := by
  induction houts with
  | nil =>
    refine ⟨[], List.Perm.refl _, List.Pairwise.nil, ?_⟩
    rw [h.output, cut_nil]
    exact .refl _
  | @cons p out shards outs hp hrest ih =>
    obtain ⟨hfirst, halone⟩ := List.pairwise_cons.mp halone
    by_cases hnone : p.2.filter (m.keep s) = []
    · have hothers := ih halone
      unfold Possible at hothers ⊢
      simp only [List.map_cons, List.flatten_cons, List.filter_append, hnone, hp.nil h hnone, List.nil_append]
      exact hothers
    · obtain ⟨hf, ho⟩ := flatten_nil_of_filter h
        (fun q hq => (hfirst q hq).resolve_left hnone) hrest
      unfold Possible at hp ⊢
      simp only [List.map_cons, List.flatten_cons, List.filter_append, hf, ho, List.append_nil]
      exact hp

lemma splits_alone (h : Plain s) (hplace : ∀ r r', m.keep s r = true → m.keep s r' = true → place r = place r') :
    m.Splits s place := by
  intro shards hids hrows outs houts
  refine possible_alone h ?_ houts
  have hne : shards.Pairwise fun p q => p.1 ≠ q.1 := List.pairwise_map.mp hids
  refine (List.Pairwise.and_mem.mp hne).imp ?_
  rintro p q ⟨hp, hq, hpq⟩
  by_contra hboth
  obtain ⟨hp', hq'⟩ := not_or.mp hboth
  obtain ⟨r, hr⟩ := List.exists_mem_of_ne_nil _ hp'
  obtain ⟨r', hr'⟩ := List.exists_mem_of_ne_nil _ hq'
  obtain ⟨hrmem, hrkeep⟩ := List.mem_filter.mp hr
  obtain ⟨hrmem', hrkeep'⟩ := List.mem_filter.mp hr'
  exact hpq (by rw [← hrows p hp r hrmem, ← hrows q hq r' hrmem', hplace r r' hrkeep hrkeep'])

/-! ### A cut is seen across two shards -/

lemma keep_replicate (hr : m.keep s r = true) (k : Nat) :
    (List.replicate k r).filter (m.keep s) = List.replicate k r :=
  List.filter_eq_self.mpr fun x hx => by rw [List.eq_of_mem_replicate hx]; exact hr

lemma possible_replicate (hr : m.keep s r = true) (k : Nat) :
    m.Possible s (List.replicate k r) (m.output s (List.replicate k r)) := by
  refine ⟨List.replicate k r, ?_, ?_, List.Perm.refl _⟩
  · rw [keep_replicate hr]
  · exact List.pairwise_replicate.mpr (.inr (by simpa using @before_total _ _ m s r r))

/-- Copies of a row that comes strictly first are all that a cut takes. -/
lemma length_cut_first (hlt : m.before s r' r = false) (hl : m.limit s = some n)
    (hperm : rows.Perm (List.replicate (m.offset s + n) r ++ List.replicate (m.offset s + n) r'))
    (hsorted : rows.Pairwise fun a b => m.before s a b = true) : (m.cut s rows).length = n := by
  have hle : m.before s r r' = true := (before_total r r').resolve_right (by simp [hlt])
  have hself : ∀ x : Row, m.before s x x = true := fun x => by simpa using @before_total _ _ m s x x
  obtain rfl : rows = List.replicate (m.offset s + n) r ++ List.replicate (m.offset s + n) r' := by
    refine hperm.eq_of_pairwise ?_ hsorted ?_
    · intro a b ha hb hab hba
      rw [hperm.mem_iff] at ha
      simp only [List.mem_append, List.mem_replicate] at ha hb
      rcases ha with ⟨_, rfl⟩ | ⟨_, rfl⟩ <;> rcases hb with ⟨_, rfl⟩ | ⟨_, rfl⟩ <;> simp_all
    · refine List.pairwise_append.mpr
        ⟨List.pairwise_replicate.mpr (.inr (hself r)), List.pairwise_replicate.mpr (.inr (hself r')), ?_⟩
      intro a ha b hb
      rw [List.eq_of_mem_replicate ha, List.eq_of_mem_replicate hb]
      exact hle
  have hrest : (List.replicate (m.offset s + n) r ++ List.replicate (m.offset s + n) r').drop (m.offset s) =
      List.replicate n r ++ List.replicate (m.offset s + n) r' := by
    rw [List.drop_append_of_le_length (by simp)]
    simp
  have htake : (List.replicate n r ++ List.replicate (m.offset s + n) r').take n = List.replicate n r := by
    simp
  have hdrop : (List.replicate n r ++ List.replicate (m.offset s + n) r').drop n =
      List.replicate (m.offset s + n) r' := by
    simp
  have htied : m.tied s (List.replicate n r ++ List.replicate (m.offset s + n) r') n = [] := by
    unfold tied
    rw [htake, hdrop]
    split
    · rename_i last hlast
      rw [List.eq_of_mem_replicate (List.mem_of_getLast? hlast)]
      cases m.offset s + n <;> simp [List.replicate_succ, hlt]
    · rfl
  simp [cut, hl, hrest, htake, htied]

/-- Rows of different shards that all tie make all rows tie, for a row of either shard is on another
shard than one of any two. -/
lemma all_tied (hr : m.keep s r = true) (hr' : m.keep s r' = true) (hne : place r ≠ place r')
    (hacross : ∀ a b, m.keep s a = true → m.keep s b = true → place a ≠ place b → m.before s a b = true)
    {a b : Row} (ha : m.keep s a = true) (hb : m.keep s b = true) : m.before s a b = true := by
  by_cases hab : place a = place b
  · by_cases har : place a = place r
    · exact before_trans (hacross a r' ha hr' fun h => hne (har.symm.trans h))
        (hacross r' b hr' hb fun h => hne (har.symm.trans (hab.trans h.symm)))
    · exact before_trans (hacross a r ha hr har) (hacross r b hr hb fun h => har (hab.trans h.symm))
  · exact hacross a b ha hb hab

section

variable (h : Plain s) (hs : m.Splits s place) (hr : m.keep s r = true) (hr' : m.keep s r' = true)
  (hne : place r ≠ place r')

include h hs hr hr' hne

/-- What the view has to return over copies of two kept rows on two shards. -/
lemma Splits.two (k : Nat) :
    ∃ rows, rows.Perm (List.replicate k r ++ List.replicate k r') ∧ rows.Pairwise (fun a b => m.before s a b = true) ∧
      (m.cut s rows).length =
        (m.cut s (List.replicate k r)).length + (m.cut s (List.replicate k r')).length := by
  obtain ⟨rows, hperm, hsorted, hout⟩ :=
    hs [(place r, List.replicate k r), (place r', List.replicate k r')] (by simpa using hne)
      (by
        intro p hp x hx
        simp only [List.mem_cons, List.not_mem_nil, or_false] at hp
        rcases hp with rfl | rfl <;> rw [List.eq_of_mem_replicate hx])
      [m.output s (List.replicate k r), m.output s (List.replicate k r')]
      (.cons (possible_replicate hr k) (.cons (possible_replicate hr' k) .nil))
  simp only [List.map_cons, List.map_nil, List.flatten_cons, List.flatten_nil, List.append_nil,
    List.filter_append, keep_replicate hr, keep_replicate hr'] at hperm hout
  refine ⟨rows, hperm, hsorted, ?_⟩
  have hlen := hout.length_eq
  simp only [h.output, List.length_append, List.length_map] at hlen
  exact hlen.symm

lemma not_splits_offset (hl : m.limit s = none) : m.offset s = 0 := by
  obtain ⟨rows, hperm, _, hlen⟩ := hs.two h hr hr' hne (m.offset s)
  have hrows := hperm.length_eq
  simp only [List.length_append, List.length_replicate] at hrows
  simp only [cut, hl, List.length_drop, List.length_replicate, hrows] at hlen
  omega

lemma not_splits_limit (hl : m.limit s = some n) (ht : m.ties = false) : n = 0 := by
  obtain ⟨rows, hperm, _, hlen⟩ := hs.two h hr hr' hne (m.offset s + n)
  have hrows := hperm.length_eq
  simp only [List.length_append, List.length_replicate] at hrows
  have hcut : (m.cut s rows).length = n := by
    simp only [cut, hl, ht, Bool.false_eq_true, if_false, List.append_nil, List.length_take, List.length_drop, hrows]
    omega
  rw [hcut, length_cut_replicate hl, length_cut_replicate hl] at hlen
  omega

lemma not_splits_ordered (hl : m.limit s = some n) (hn : n ≠ 0) : m.before s r' r = true := by
  by_contra hlt
  obtain ⟨rows, hperm, hsorted, hlen⟩ := hs.two h hr hr' hne (m.offset s + n)
  rw [length_cut_first (by simpa using hlt) hl hperm hsorted, length_cut_replicate hl, length_cut_replicate hl] at hlen
  omega

lemma not_splits_tied (hl : m.limit s = some n) (hn : n ≠ 0) (ht : m.ties = true)
    (hall : ∀ a b, m.keep s a = true → m.keep s b = true → m.before s a b = true) : m.offset s = 0 := by
  obtain ⟨rows, hperm, _, hlen⟩ := hs.two h hr hr' hne (m.offset s + n)
  have hkept : ∀ x ∈ rows, m.keep s x = true := by
    intro x hx
    rw [hperm.mem_iff, List.mem_append, List.mem_replicate, List.mem_replicate] at hx
    rcases hx with ⟨_, rfl⟩ | ⟨_, rfl⟩ <;> assumption
  rw [cut_ties hl hn ht fun a ha b hb => hall a b (hkept a ha) (hkept b hb), List.length_drop,
    hperm.length_eq, length_cut_replicate hl, length_cut_replicate hl, List.length_append,
    List.length_replicate, List.length_replicate] at hlen
  omega

end

lemma confined_of_splits (h : Plain s) (hs : m.Splits s place) : m.Confined s place := by
  by_cases hplace : ∀ r r', m.keep s r = true → m.keep s r' = true → place r = place r'
  · exact .inr (.inr (.inr hplace))
  · simp only [not_forall] at hplace
    obtain ⟨r, r', hr, hr', hne⟩ := hplace
    cases hl : m.limit s with
    | none => exact .inl ⟨hl, not_splits_offset h hs hr hr' hne hl⟩
    | some n =>
      by_cases hn : n = 0
      · exact .inr (.inl (by rw [hl, hn]))
      · cases ht : m.ties with
        | false => exact absurd (not_splits_limit h hs hr hr' hne hl ht) hn
        | true =>
          have hall : ∀ a b, m.keep s a = true → m.keep s b = true → m.before s a b = true :=
            fun a b ha hb => all_tied hr hr' hne
              (fun a b ha hb hab => not_splits_ordered h hs hb ha hab.symm hl hn) ha hb
          exact .inr (.inr (.inl ⟨ht, not_splits_tied h hs hr hr' hne hl hn ht hall, hall⟩))

lemma splits_of_confined (h : Plain s) (hc : m.Confined s place) : m.Splits s place := by
  by_cases hzero : m.limit s = some 0
  · exact splits_empty h hzero place
  · rcases hc with ⟨hl, ho⟩ | hl | ⟨ht, ho, hpeers⟩ | hplace
    · exact splits_whole h (fun rows _ => cut_uncut hl ho rows) place
    · exact absurd hl hzero
    · refine splits_whole h (fun rows hkept => ?_) place
      cases hl : m.limit s with
      | none => exact cut_uncut hl ho rows
      | some n =>
        have hn : n ≠ 0 := fun hn => hzero (by rw [hl, hn])
        rw [cut_ties hl hn ht fun a ha b hb => hpeers a b (hkept a ha) (hkept b hb), ho, List.drop_zero]
    · exact splits_alone h hplace

end Meaning

end

def column (name : String) : Node := .resTarget "" (some (.columnRef [.name name]))

/-- Tenants live on two shards, the even ones on shard 0. -/
def byParity : Keys := ⟨fun | .int i => .ok (i % 2).toNat | _ => .ok 0, fun _ _ _ => .ok (.int 0)⟩

/-- Rows are pairs of a tenant and an id; the queries below keep tenants 5 and 6 at most and show one
row. -/
def pairs : Meaning (Nat × Nat) (Nat × Nat) where
  holds _ r := r.1 == 5 || r.1 == 6
  order _ _ _ := true
  total _ _ _ := .inl rfl
  trans _ _ _ _ _ _ := rfl
  count _ := some 1
  skip _ := 0
  ties := false
  project _ r := (r.2, r.1)
  combine _ _ := []

/-- `SELECT tenant_id, id FROM orders` -/
def allOrders : SelectStmt Node where
  targetList := [column "tenant_id", column "id"]
  fromClause := [.rangeVar { relname := "orders" }]

/-- `SELECT id, tenant_id FROM orders WHERE tenant_id IN (5, 6) LIMIT 1` -/
def oneOfTwo : SelectStmt Node where
  targetList := [column "id", column "tenant_id"]
  fromClause := [.rangeVar { relname := "orders" }]
  whereClause := some (.aExpr .isIn ["="] (some (.columnRef [.name "tenant_id"]))
    (some (.list [.aConst (.ival 5), .aConst (.ival 6)])))
  limitCount := some (.aConst (.ival 1))

end PgShard.Ddl
