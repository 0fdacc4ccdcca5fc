import PgShard.Key.Literal

/-!
# The order of shard rows

The router orders the rows of several shards by the sort keys of the plan, on decoded values. How a
column's bytes are decoded is left open here; the order of the decoded values is not.
-/

namespace PgShard.Scatter

open Key

/-- The special values PostgreSQL puts around the finite ones. -/
inductive Class where
  | negInf
  | finite
  | posInf
  | nan
  deriving DecidableEq, Repr

def Class.rank : Class → Int
  | .negInf => -1
  | .finite => 0
  | .posInf => 1
  | .nan => 2

/-- A decoded column value of one of the supported families. A finite float is the rational it
stands for. -/
structure Value where
  cls : Class := .finite
  i : Int := 0
  f : ℚ := 0
  rat : ℚ := 0
  scale : Nat := 0
  b : Bytes := []
  deriving DecidableEq, Repr

/-- The types that share a decoder and a comparison. -/
inductive Family where
  | none
  | int
  | float
  | numeric
  | bool
  | date
  | timestamp
  | uuid
  | bytes
  | textCollated
  deriving DecidableEq, Repr

def familyOf (oid : Nat) : Family :=
  match oid with
  | 21 | 23 | 20 | 26 => .int
  | 700 | 701 => .float
  | 1700 => .numeric
  | 16 => .bool
  | 1082 => .date
  | 1114 | 1184 => .timestamp
  | 2950 => .uuid
  | 17 | 18 => .bytes
  | 25 | 1043 | 1042 | 19 => .textCollated
  | _ => .none

/-- Two finite values of one family. -/
def compareFinite : Family → Value → Value → Ordering
  | .int | .bool | .date | .timestamp => fun x y => compare x.i y.i
  | .float => fun x y => compare x.f y.f
  | .numeric => fun x y => compare x.rat y.rat
  | .none | .uuid | .bytes | .textCollated => fun x y => compare x.b y.b

def compareValues (fam : Family) (x y : Value) : Ordering :=
  if x.cls ≠ y.cls then compare x.cls.rank y.cls.rank
  else if x.cls ≠ .finite then .eq
  else compareFinite fam x y

/-- One sort key resolved against the columns of the shard rows. -/
structure KeyColumn where
  column : Nat
  desc : Bool
  nullsFirst : Bool
  fam : Family
  decode : Bytes → Except Refusal Value

def nullOrder (k : KeyColumn) : Ordering := if k.nullsFirst then .lt else .gt

def compareColumn (k : KeyColumn) : Option Value → Option Value → Ordering
  | none, none => .eq
  | none, some _ => nullOrder k
  | some _, none => (nullOrder k).swap
  | some x, some y => if k.desc then (compareValues k.fam x y).swap else compareValues k.fam x y

abbrev Row := List (Option Bytes)

/-- The ordering columns of one row, decoded. -/
abbrev SortKey := List (Option Value)

def compareKeys : List KeyColumn → SortKey → SortKey → Ordering
  | [], _, _ => .eq
  | k :: ks, a, b => (compareColumn k (a.headD none) (b.headD none)).then (compareKeys ks a.tail b.tail)

/-- The column of a row a key reads. -/
def rowColumn (row : Row) (i : Nat) : Option Bytes := row.getD i none

/-- The source's `RowComparator.Key`: every ordering column decoded once, NULLs kept as such. -/
def keyOf (row : Row) : List KeyColumn → Except Refusal SortKey
  | [] => .ok []
  | k :: ks =>
    match rowColumn row k.column with
    | none =>
      match keyOf row ks with
      | .error e => .error e
      | .ok rest => .ok (none :: rest)
    | some b =>
      match k.decode b with
      | .error e => .error e
      | .ok v =>
        match keyOf row ks with
        | .error e => .error e
        | .ok rest => .ok (some v :: rest)

lemma transCmp_comap {α β : Type} (cmp : β → β → Ordering) [Std.TransCmp cmp] (f : α → β) :
    Std.TransCmp fun a b => cmp (f a) (f b) where
  eq_swap := Std.OrientedCmp.eq_swap
  isLE_trans := Std.TransCmp.isLE_trans

lemma transCmp_swap {α : Type} (cmp : α → α → Ordering) [Std.TransCmp cmp] :
    Std.TransCmp fun a b => (cmp a b).swap where
  eq_swap := by
    intro a b
    rw [@Std.OrientedCmp.eq_swap α cmp _ a b]
  isLE_trans := by
    intro a b c hab hbc
    rw [← @Std.OrientedCmp.eq_swap α cmp _] at hab hbc ⊢
    exact Std.TransCmp.isLE_trans hbc hab

instance compareFinite_trans (fam : Family) : Std.TransCmp (compareFinite fam) := by
  cases fam
  case int | bool | date | timestamp => exact transCmp_comap compare Value.i
  case float => exact transCmp_comap compare Value.f
  case numeric => exact transCmp_comap compare Value.rat
  case none | uuid | bytes | textCollated => exact transCmp_comap compare Value.b

/-- A special value stands for its class alone. -/
def Value.finitePart (v : Value) : Value := if v.cls = .finite then v else {}

lemma compareFinite_self (fam : Family) (v : Value) : compareFinite fam v v = .eq := Std.ReflCmp.compare_self

/-- The classes first, then the values that have no class of their own. -/
lemma compareValues_eq (fam : Family) : compareValues fam = compareLex
    (fun x y => compare x.cls.rank y.cls.rank) fun x y => compareFinite fam x.finitePart y.finitePart := by
  funext x y
  by_cases hcls : x.cls = y.cls
  · have hrank : compare x.cls.rank y.cls.rank = .eq := by simp [hcls]
    rw [compareLex, hrank, Ordering.then, compareValues, if_neg (not_not.mpr hcls)]
    by_cases hfin : x.cls = .finite
    · simp [Value.finitePart, hfin, ← hcls]
    · simp [Value.finitePart, hfin, ← hcls, compareFinite_self]
  · have hrank : compare x.cls.rank y.cls.rank ≠ .eq := by
      revert hcls
      cases x.cls <;> cases y.cls <;> decide
    rw [compareValues, if_pos hcls, compareLex]
    cases hc : compare x.cls.rank y.cls.rank with
    | lt | gt => rfl
    | eq => exact absurd hc hrank

instance compareValues_trans (fam : Family) : Std.TransCmp (compareValues fam) := by
  have := transCmp_comap compare fun v : Value => v.cls.rank
  have := transCmp_comap (compareFinite fam) Value.finitePart
  rw [compareValues_eq]
  infer_instance

/-- Where a key puts NULLs, against the 0 of everything else. -/
def nullRank (k : KeyColumn) : Option Value → Int
  | none => if k.nullsFirst then -1 else 1
  | some _ => 0

/-- NULLs first, then the values in the direction of the key. -/
lemma compareColumn_eq (k : KeyColumn) : compareColumn k = compareLex
    (fun x y => compare (nullRank k x) (nullRank k y))
    fun x y => if k.desc then (compareValues k.fam (x.getD {}) (y.getD {})).swap
      else compareValues k.fam (x.getD {}) (y.getD {}) := by
  have hself : compareValues k.fam {} {} = .eq := Std.ReflCmp.compare_self
  have hneg : compare (-1 : Int) 0 = .lt := by decide
  have hpos : compare (1 : Int) 0 = .gt := by decide
  have hneg' : compare (0 : Int) (-1) = .gt := by decide
  have hpos' : compare (0 : Int) 1 = .lt := by decide
  funext x y
  cases x with
  | none =>
    cases y with
    | none => simp [compareColumn, compareLex, hself]
    | some y => cases hn : k.nullsFirst <;> simp [compareColumn, compareLex, nullRank, nullOrder, hn, hneg, hpos]
  | some x =>
    cases y with
    | none => cases hn : k.nullsFirst <;> simp [compareColumn, compareLex, nullRank, nullOrder, hn, hneg', hpos']
    | some y => simp [compareColumn, compareLex, nullRank]

instance compareColumn_trans (k : KeyColumn) : Std.TransCmp (compareColumn k) := by
  have := transCmp_comap compare (nullRank k)
  have := transCmp_comap (compareValues k.fam) fun v : Option Value => v.getD {}
  have := transCmp_swap fun x y : Option Value => compareValues k.fam (x.getD {}) (y.getD {})
  rw [compareColumn_eq]
  cases k.desc with
  | false =>
    simp only [Bool.false_eq_true, if_false]
    infer_instance
  | true =>
    simp only [if_true]
    infer_instance

instance compareKeys_trans (ks : List KeyColumn) : Std.TransCmp (compareKeys ks) := by
  induction ks with
  | nil => exact { eq_swap := rfl, isLE_trans := fun _ _ => rfl }
  | cons k ks ih =>
    have := transCmp_comap (compareColumn k) fun a : SortKey => a.headD none
    have := transCmp_comap (compareKeys ks) fun a : SortKey => a.tail
    exact inferInstanceAs (Std.TransCmp (compareLex
      (fun a b : SortKey => compareColumn k (a.headD none) (b.headD none))
      (fun a b : SortKey => compareKeys ks a.tail b.tail)))

/-- The source's `RowComparator.Compare`: the columns are decoded as they are reached. -/
def compareRows : List KeyColumn → Row → Row → Except Refusal Ordering
  | [], _, _ => .ok .eq
  | k :: ks, a, b =>
    match rowColumn a k.column, rowColumn b k.column with
    | none, none => compareRows ks a b
    | none, some _ => .ok (nullOrder k)
    | some _, none => .ok (nullOrder k).swap
    | some x, some y =>
      match k.decode x with
      | .error e => .error e
      | .ok v =>
        match k.decode y with
        | .error e => .error e
        | .ok w =>
          match compareValues k.fam v w with
          | .eq => compareRows ks a b
          | c => .ok (if k.desc then c.swap else c)

/-- The decoded key of a row, column by column. -/
lemma keyOf_cons {row : Row} {k : KeyColumn} {ks : List KeyColumn} {key : SortKey}
    (h : keyOf row (k :: ks) = .ok key) : ∃ v rest, key = v :: rest ∧ keyOf row ks = .ok rest ∧
      (rowColumn row k.column = none ∧ v = none ∨
        ∃ x w, rowColumn row k.column = some x ∧ k.decode x = .ok w ∧ v = some w) := by
  unfold keyOf at h
  split at h
  · rename_i hnull
    split at h
    · cases h
    · rename_i rest hrest
      cases h
      exact ⟨none, rest, rfl, hrest, .inl ⟨hnull, rfl⟩⟩
  · rename_i x hx
    split at h
    · cases h
    · rename_i w hw
      split at h
      · cases h
      · rename_i rest hrest
        cases h
        exact ⟨some w, rest, rfl, hrest, .inr ⟨x, w, hx, hw, rfl⟩⟩

lemma compareRows_eq {keys : List KeyColumn} {a b : Row} {ka kb : SortKey}
    (ha : keyOf a keys = .ok ka) (hb : keyOf b keys = .ok kb) :
    compareRows keys a b = .ok (compareKeys keys ka kb) := by
  induction keys generalizing ka kb with
  | nil => rfl
  | cons k ks ih =>
    obtain ⟨v, ra, rfl, hra, hv⟩ := keyOf_cons ha
    obtain ⟨w, rb, rfl, hrb, hw⟩ := keyOf_cons hb
    have hrest := ih hra hrb
    unfold compareRows compareKeys
    rcases hv with ⟨hx, rfl⟩ | ⟨x, v, hx, hdx, rfl⟩ <;> rcases hw with ⟨hy, rfl⟩ | ⟨y, w, hy, hdy, rfl⟩
    · simp only [hx, hy, hrest]
      rfl
    · simp only [hx, hy]
      cases hn : k.nullsFirst <;> simp [compareColumn, nullOrder, hn]
    · simp only [hx, hy]
      cases hn : k.nullsFirst <;> simp [compareColumn, nullOrder, hn]
    · simp only [hx, hy, hdx, hdy]
      cases hc : compareValues k.fam v w <;> cases hd : k.desc <;>
        simp [compareColumn, hc, hd, hrest, Ordering.then]

lemma compareRows_append {tied : List KeyColumn} {a b : Row} (h : compareRows tied a b = .ok .eq)
    (ks : List KeyColumn) : compareRows (tied ++ ks) a b = compareRows ks a b := by
  induction tied with
  | nil => rfl
  | cons k tied ih =>
    have hnull : nullOrder k ≠ .eq := by
      unfold nullOrder
      split <;> nofun
    rw [List.cons_append]
    rw [compareRows] at h ⊢
    split at h
    · exact ih h
    · cases hnull (Except.ok.inj h)
    · cases hnull (Ordering.swap_eq_eq.mp (Except.ok.inj h))
    · split at h
      · cases h
      · split at h
        · cases h
        · split at h
          · exact ih h
          · rename_i hne
            have heq := Except.ok.inj h
            split at heq
            · exact absurd (Ordering.swap_eq_eq.mp heq) hne
            · exact absurd heq hne

/-- On rows whose keys decode, `Compare` is a total preorder and the comparison of the decoded keys;
and a NULL goes where its key says, whatever the direction. -/
theorem compare_is_preorder (keys : List KeyColumn) (a b c : Row) (ka kb kc : SortKey)
    (ha : keyOf a keys = .ok ka) (hb : keyOf b keys = .ok kb) (hc : keyOf c keys = .ok kc) :
    compareRows keys a b = .ok (compareKeys keys ka kb) ∧ compareRows keys a a = .ok .eq ∧
      (∀ o, compareRows keys a b = .ok o → compareRows keys b a = .ok o.swap) ∧
      (∀ o o', compareRows keys a b = .ok o → compareRows keys b c = .ok o' → o.isLE → o'.isLE →
        ∃ o'', compareRows keys a c = .ok o'' ∧ o''.isLE) ∧
      ∀ tied k ks, keys = tied ++ k :: ks → compareRows tied a b = .ok .eq →
        rowColumn a k.column = none → rowColumn b k.column ≠ none →
          compareRows keys a b = .ok (if k.nullsFirst then .lt else .gt) := by
  have hab := compareRows_eq ha hb
  refine ⟨hab, ?_, ?_, ?_, ?_⟩
  · have hself : compareKeys keys ka ka = .eq := Std.ReflCmp.compare_self
    rw [compareRows_eq ha ha, hself]
  · intro o ho
    cases hab.symm.trans ho
    have hswap : compareKeys keys kb ka = (compareKeys keys ka kb).swap := Std.OrientedCmp.eq_swap
    rw [compareRows_eq hb ha, hswap]
  · intro o o' ho ho' hle hle'
    cases hab.symm.trans ho
    cases (compareRows_eq hb hc).symm.trans ho'
    exact ⟨_, compareRows_eq ha hc, Std.TransCmp.isLE_trans hle hle'⟩
  · rintro tied k ks rfl htied hnull hvalue
    obtain ⟨y, hy⟩ := Option.ne_none_iff_exists'.mp hvalue
    rw [compareRows_append htied, compareRows]
    simp only [hnull, hy, nullOrder]

/-- Two rows and a NULL, descending with the NULLs last. -/
theorem compare_two_rows : ∃ key : KeyColumn, key.desc = true ∧ compareRows [key] [some [1]] [some [2]] = .ok .gt ∧
      compareRows [key] [some [2]] [some [1]] = .ok .lt := by
  let key : KeyColumn := ⟨0, true, false, .bytes, fun b => .ok { b := b }⟩
  have hpre := compare_is_preorder [key] [some [1]] [some [2]] [none] _ _ _ rfl rfl rfl
  have hgt : compareRows [key] [some [1]] [some [2]] = .ok .gt := by rw [hpre.1]; decide
  exact ⟨key, rfl, hgt, hpre.2.2.1 _ hgt⟩

end PgShard.Scatter
