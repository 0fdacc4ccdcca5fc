import PgShard.Postgres.Spelling
import PgShard.Scatter.Merge

/-!
# LIMIT and OFFSET across shards

Every shard is asked for its first LIMIT+OFFSET rows and no offset; the router skips and counts over
the merged rows. The rows that come out are those of the same LIMIT and OFFSET over everything the
shards hold.
-/

namespace PgShard.Scatter

open Key Planner

variable {ks : List KeyColumn}

/-- The order of rows the sort keys give. -/
def rowLe (ks : List KeyColumn) (a b : Row) : Bool :=
  match keyOf a ks, keyOf b ks with
  | .ok x, .ok y => (compareKeys ks x y).isLE
  | _, _ => false

/-- The order of the heap as a comparison. -/
def order (ks : List KeyColumn) : Head → Head → Ordering :=
  compareLex (fun x y => compareKeys ks x.key y.key) fun x y => compare x.src y.src

instance order_trans (ks : List KeyColumn) : Std.TransCmp (order ks) := by
  have := transCmp_comap (compareKeys ks) Head.key
  have := transCmp_comap compare Head.src
  unfold order
  infer_instance

lemma order_eq (ks : List KeyColumn) (x y : Head) :
    order ks x y = (compareKeys ks x.key y.key).then (compare x.src y.src) := rfl

lemma less_eq (ks : List KeyColumn) (x y : Head) : less ks x y = (order ks x y).isLT := by
  rw [order_eq, less]
  cases compareKeys ks x.key y.key with
  | lt | gt => rfl
  | eq =>
    cases hc : compare x.src y.src with
    | lt => simpa [Nat.compare_eq_lt] using hc
    | gt =>
      have : y.src < x.src := Nat.compare_eq_gt.mp hc
      simp only [Ordering.then, Ordering.isLT, decide_eq_false_iff_not]
      omega
    | eq => simp [Nat.compare_eq_eq.mp hc]

variable {x y : Head} {ls : List (List Row)} {l : Limiter} {rows : List Row}

lemma isLE_of_not_less (h : less ks y x = false) : (order ks x y).isLE = true := by
  have hswap : order ks y x = (order ks x y).swap := Std.OrientedCmp.eq_swap
  rw [less_eq, hswap] at h
  revert h
  cases order ks x y <;> decide

lemma isLE_of_less (h : less ks x y = true) : (order ks x y).isLE = true := by
  rw [less_eq] at h
  revert h
  cases order ks x y <;> decide

/-- Taking from the heap takes its least row. -/
lemma least_spec (ks : List KeyColumn) (h : Head) (rest : List Head) :
    ((least ks h rest).1 :: (least ks h rest).2).Perm (h :: rest) ∧
      ∀ y ∈ h :: rest, (order ks (least ks h rest).1 y).isLE = true := by
  induction rest generalizing h with
  | nil =>
    refine ⟨.refl _, ?_⟩
    intro y hy
    rw [List.mem_singleton.mp hy]
    have hself : order ks h h = .eq := Std.ReflCmp.compare_self
    simp [least, hself]
  | cons x rest ih =>
    unfold least
    by_cases hlt : less ks x h
    · obtain ⟨hperm, hle⟩ := ih x
      rw [if_pos hlt]
      refine ⟨((List.Perm.swap _ _ _).trans (hperm.cons _)), ?_⟩
      intro y hy
      rcases List.mem_cons.mp hy with rfl | hy
      · exact Std.TransCmp.isLE_trans (hle x (by simp)) (isLE_of_less hlt)
      · exact hle y hy
    · obtain ⟨hperm, hle⟩ := ih h
      rw [if_neg hlt]
      refine ⟨(List.Perm.swap _ _ _).trans ((hperm.cons _).trans (List.Perm.swap _ _ _)), ?_⟩
      have hhx := isLE_of_not_less (by simpa using hlt : less ks x h = false)
      intro y hy
      rcases List.mem_cons.mp hy with rfl | hy
      · exact hle y (by simp)
      · rcases List.mem_cons.mp hy with rfl | hy
        · exact Std.TransCmp.isLE_trans (hle h (by simp)) hhx
        · exact hle y (by simp [hy])

/-- The heap and the streams behind it stand for whole streams `ls`: it holds the first row of each,
with its key. -/
structure Loaded (ks : List KeyColumn) (heap : List Head) (sources ls : List (List Row)) : Prop where
  behind : sources = ls.map List.tail
  heads : (heap.map fun h => (h.row, h.src)).Perm (Merge.heads 0 ls)
  keyed : ∀ h ∈ heap, keyOf h.row ks = .ok h.key

lemma before_of_isLE (hx : keyOf x.row ks = .ok x.key)
    (hy : keyOf y.row ks = .ok y.key) (h : (order ks x y).isLE = true) :
    Merge.Before (rowLe ks) (x.row, x.src) (y.row, y.src) := by
  have hswap : compareKeys ks y.key x.key = (compareKeys ks x.key y.key).swap := Std.OrientedCmp.eq_swap
  rw [order_eq] at h
  unfold Merge.Before rowLe
  simp only [hx, hy, hswap]
  cases hc : compareKeys ks x.key y.key with
  | lt => simp
  | gt => simp [hc] at h
  | eq =>
    simp only [hc, Ordering.then] at h
    have hle : x.src ≤ y.src := by
      by_contra hgt
      have : compare x.src y.src = .gt := Nat.compare_eq_gt.mpr (by omega)
      simp [this] at h
    simp [hle]

/-- The least row of a loaded heap is the first of the merge, and what is left merges to the rest. -/
lemma Loaded.step {h : Head} {rest : List Head} {sources : List (List Row)} (hl : Loaded ks (h :: rest) sources ls) :
    ∃ tail, ls[(least ks h rest).1.src]? = some ((least ks h rest).1.row :: tail) ∧
      Merge.stable (rowLe ks) ls = (least ks h rest).1.row ::
        Merge.stable (rowLe ks) (Merge.advance (least ks h rest).1.src ls) := by
  obtain ⟨hperm, hle⟩ := least_spec ks h rest
  have hmem : (least ks h rest).1 ∈ h :: rest := hperm.subset List.mem_cons_self
  have hhead : ((least ks h rest).1.row, (least ks h rest).1.src) ∈ Merge.heads 0 ls :=
    hl.heads.subset (List.mem_map_of_mem hmem)
  obtain ⟨tail, htail⟩ := Merge.getElem_of_heads hhead
  refine ⟨tail, by simpa using htail, ?_⟩
  apply @Merge.stable_of_least Row (rowLe ks) _ 0
  · simpa using hhead
  · intro y hy
    obtain ⟨z, hz, rfl⟩ := List.mem_map.mp (hl.heads.symm.subset hy)
    rw [Nat.zero_add]
    exact before_of_isLE (hl.keyed _ hmem) (hl.keyed z hz) (hle z hz)

/-- Every row of the streams has the width of the description and keys that can be decoded. -/
def Readable (ks : List KeyColumn) (width : Nat) (ls : List (List Row)) : Prop :=
  ∀ l ∈ ls, ∀ row ∈ l, row.length = width ∧ ∃ key, keyOf row ks = .ok key

lemma Readable.advance {width i : Nat} {ls : List (List Row)}
    (h : Readable ks width ls) : Readable ks width (Merge.advance i ls) := by
  intro l hl row hrow
  rcases List.mem_iff_getElem?.mp hl with ⟨j, hj⟩
  rw [Merge.advance, List.getElem?_modify] at hj
  cases hlj : ls[j]? with
  | none => simp [hlj] at hj
  | some l' =>
    have hmem : l' ∈ ls := List.mem_of_getElem? hlj
    rw [hlj] at hj
    split at hj
    · cases hj
      exact h l' hmem row (List.mem_of_mem_tail hrow)
    · cases hj
      exact h l' hmem row hrow

lemma map_tail_advance {i : Nat} {x : Row} {t : List Row} (h : ls[i]? = some (x :: t)) :
    (Merge.advance i ls).map List.tail = (ls.map List.tail).set i t.tail := by
  apply List.ext_getElem?
  intro j
  obtain ⟨hlt, heq⟩ := List.getElem?_eq_some_iff.mp h
  rw [List.getElem?_map, Merge.advance, List.getElem?_modify, List.getElem?_set, List.getElem?_map]
  by_cases hij : i = j
  · subst hij
    simp [hlt, heq]
  · cases hj : ls[j]? with
    | none => simp [hij]
    | some l => simp [hij]

lemma Loaded.advance {h : Head} {rest more : List Head}
    {sources ls : List (List Row)} {t : List Row} (hl : Loaded ks (h :: rest) sources ls)
    (ht : ls[(least ks h rest).1.src]? = some ((least ks h rest).1.row :: t))
    (hmore : (more.map fun h => (h.row, h.src)) = (t.head?.map fun y => (y, (least ks h rest).1.src)).toList)
    (hkeys : ∀ h ∈ more, keyOf h.row ks = .ok h.key) :
    Loaded ks ((least ks h rest).2 ++ more) (sources.set (least ks h rest).1.src t.tail)
      (Merge.advance (least ks h rest).1.src ls) := by
  obtain ⟨hperm, _⟩ := least_spec ks h rest
  obtain ⟨others, hheads, hadvance⟩ := @Merge.heads_advance Row _ 0 _ _ _ ht
  rw [Nat.zero_add] at hheads hadvance
  refine ⟨?_, ?_, ?_⟩
  · rw [hl.behind, map_tail_advance ht]
  · have hmapped := (hperm.map fun h => (h.row, h.src)).trans (hl.heads.trans hheads)
    rw [List.map_cons] at hmapped
    rw [List.map_append, hmore]
    exact (List.perm_append_comm.trans (hmapped.cons_inv.append_left _)).trans hadvance.symm
  · intro z hz
    rcases List.mem_append.mp hz with hz | hz
    · exact hl.keyed z (hperm.subset (.tail _ hz))
    · exact hkeys z hz

lemma mergeLoop_window (ks : List KeyColumn) (heap : List Head) (sources : List (List Row))
    (out : Limiter) : ∀ ls seen, Loaded ks heap sources ls → Readable ks out.width ls → out.Saw seen →
      ∃ out', mergeLoop ks heap sources out = .ok out' ∧
        out'.emitted = out.shown (seen ++ Merge.stable (rowLe ks) ls) := by
  fun_induction mergeLoop ks heap sources out with
  | case1 sources out =>
    intro ls seen hl _ hsaw
    have hnone : Merge.stable (rowLe ks) ls = [] := by
      cases hs : Merge.stable (rowLe ks) ls with
      | nil => rfl
      | cons y rest =>
        obtain ⟨i, hi⟩ := Merge.head_stable (rowLe ks) 0 hs
        have := hl.heads.symm.subset hi
        cases this
    exact ⟨out, rfl, by rw [hnone, List.append_nil]; exact hsaw.emitted⟩
  | case2 sources out h rest hd =>
    intro ls seen hl _ hsaw
    exact ⟨out, rfl, hsaw.done hd _⟩
  | case3 sources out h rest _ e hpush =>
    intro ls seen hl hread hsaw
    obtain ⟨t, ht, _⟩ := hl.step
    have hwide := (hread _ (List.mem_of_getElem? ht) _ List.mem_cons_self).1
    obtain ⟨out', hok, _⟩ := hsaw.push hwide
    rw [hpush] at hok
    cases hok
  | case4 sources out h rest _ out' hpush row tail hs e hkey =>
    intro ls seen hl hread hsaw
    obtain ⟨t, ht, _⟩ := hl.step
    have hrow : row ∈ (least ks h rest).1.row :: t := by
      rw [hl.behind, List.getElem?_map, ht] at hs
      have : t = row :: tail := by simpa using hs
      simp [this]
    obtain ⟨_, key, hkey'⟩ := hread _ (List.mem_of_getElem? ht) row hrow
    rw [hkey] at hkey'
    cases hkey'
  | case5 sources out h rest _ out' hpush row tail hs key hkey _ ih =>
    intro ls seen hl hread hsaw
    obtain ⟨t, ht, hstable⟩ := hl.step
    have htail : t = row :: tail := by
      rw [hl.behind, List.getElem?_map, ht] at hs
      simpa using hs
    subst htail
    have hwide := (hread _ (List.mem_of_getElem? ht) _ List.mem_cons_self).1
    obtain ⟨out'', hok, hsaw', hlike⟩ := hsaw.push hwide
    rw [hpush] at hok
    cases hok
    obtain ⟨final, hfinal, hrows⟩ := ih _ _ (hl.advance ht rfl (by simpa using hkey))
      (hlike.width ▸ hread.advance) hsaw'
    refine ⟨final, hfinal, ?_⟩
    rw [hrows, hlike.shown, hstable, List.append_assoc, List.singleton_append]
  | case6 sources out h rest _ out' hpush hnot ih =>
    intro ls seen hl hread hsaw
    obtain ⟨t, ht, hstable⟩ := hl.step
    have hsrc : sources[(least ks h rest).1.src]? = some t := by
      rw [hl.behind, List.getElem?_map, ht]
      rfl
    have htail : t = [] := by
      cases t with
      | nil => rfl
      | cons row tail => exact absurd hsrc (hnot row tail)
    subst htail
    have hwide := (hread _ (List.mem_of_getElem? ht) _ List.mem_cons_self).1
    obtain ⟨out'', hok, hsaw', hlike⟩ := hsaw.push hwide
    rw [hpush] at hok
    cases hok
    have hnext := @Loaded.advance ks h rest [] sources ls [] hl ht rfl (by simp)
    have hset : sources.set (least ks h rest).1.src ([] : List Row).tail = sources := by
      obtain ⟨hlt, heq⟩ := List.getElem?_eq_some_iff.mp hsrc
      rw [List.tail_nil, ← heq, List.set_getElem_self]
    rw [hset, List.append_nil] at hnext
    obtain ⟨final, hfinal, hrows⟩ := ih _ _ hnext (hlike.width ▸ hread.advance) hsaw'
    refine ⟨final, hfinal, ?_⟩
    rw [hrows, hlike.shown, hstable, List.append_assoc, List.singleton_append]

/-- The heap the merge starts with. -/
lemma firstHeads_loaded {width : Nat} (start : Nat) (h : Readable ks width ls) :
    ∃ heap, firstHeads ks start ls = .ok heap ∧ (heap.map fun h => (h.row, h.src)) = Merge.heads start ls ∧
      ∀ h ∈ heap, keyOf h.row ks = .ok h.key := by
  induction ls generalizing start with
  | nil => exact ⟨[], rfl, rfl, by simp⟩
  | cons l ls ih =>
    obtain ⟨heap, hheap, hmap, hkeys⟩ := ih (start + 1) fun l' hl' => h l' (.tail _ hl')
    cases l with
    | nil => exact ⟨heap, hheap, hmap, hkeys⟩
    | cons row l =>
      obtain ⟨_, key, hkey⟩ := h _ List.mem_cons_self row List.mem_cons_self
      refine ⟨{ row := row, src := start, key := key } :: heap, ?_, ?_, ?_⟩
      · simp [firstHeads, hkey, hheap]
      · simp [Merge.heads, hmap]
      · intro z hz
        rcases List.mem_cons.mp hz with rfl | hz
        · exact hkey
        · exact hkeys z hz

lemma mergeOrdered_window {out : Limiter} (hread : Readable ks out.width ls) (hsaw : out.Saw []) :
    ∃ out', mergeOrdered ks ls out = .ok out' ∧ out'.emitted = out.shown (Merge.stable (rowLe ks) ls) := by
  obtain ⟨heap, hheap, hmap, hkeys⟩ := firstHeads_loaded 0 hread
  have hloaded : Loaded ks heap (ls.map List.tail) ls := ⟨rfl, by rw [hmap], hkeys⟩
  unfold mergeOrdered
  rw [hheap]
  exact mergeLoop_window ks heap _ out ls [] hloaded hread hsaw

/-! ### The streams laid end to end -/

/-- The limiter shows the window of the rows: it saw them all, or it was done before. -/
def Limiter.Shows (l : Limiter) (rows : List Row) : Prop :=
  ∃ seen rest, rows = seen ++ rest ∧ l.Saw seen ∧ (rest = [] ∨ l.done = true)

lemma Limiter.Shows.emitted (h : l.Shows rows) : l.emitted = l.shown rows := by
  obtain ⟨seen, rest, rfl, hsaw, rfl | hdone⟩ := h
  · rw [List.append_nil]
    exact hsaw.emitted
  · exact hsaw.done hdone rest

lemma drain_shows {source : List Row} (h : l.Shows rows) (hw : ∀ row ∈ source, row.length = l.width) :
    ∃ l', drain l source = .ok l' ∧ l'.Shows (rows ++ source) ∧ l.Like l' := by
  induction source generalizing l rows with
  | nil => exact ⟨l, rfl, by rwa [List.append_nil], ⟨rfl, rfl, rfl, rfl⟩⟩
  | cons row source ih =>
    unfold drain
    obtain ⟨seen, rest, rfl, hsaw, hrest⟩ := h
    by_cases hd : l.done = true
    · rw [if_pos hd]
      exact ⟨l, rfl, ⟨seen, rest ++ row :: source, by simp, hsaw, .inr hd⟩, ⟨rfl, rfl, rfl, rfl⟩⟩
    · rw [if_neg hd]
      have hnil : rest = [] := hrest.resolve_right hd
      subst hnil
      obtain ⟨l₁, hpush, hsaw₁, hlike⟩ := hsaw.push (hw row List.mem_cons_self)
      rw [hpush]
      have hshows₁ : l₁.Shows (seen ++ [row]) := ⟨seen ++ [row], [], by simp, hsaw₁, .inl rfl⟩
      obtain ⟨l₂, hdrain, hshows, hlike'⟩ := ih hshows₁
        fun row' hrow' => hlike.width ▸ hw row' (.tail _ hrow')
      exact ⟨l₂, hdrain, by simpa using hshows, hlike.trans hlike'⟩

lemma concatenate_shows (h : l.Shows rows) (hw : ∀ source ∈ ls, ∀ row ∈ source, row.length = l.width) :
    ∃ l', concatenate l ls = .ok l' ∧ l'.emitted = l.shown (rows ++ ls.flatten) := by
  induction ls generalizing l rows with
  | nil => exact ⟨l, rfl, by rw [List.flatten_nil, List.append_nil]; exact h.emitted⟩
  | cons source ls ih =>
    obtain ⟨l₁, hdrain, hshows, hlike⟩ := drain_shows h (hw source List.mem_cons_self)
    obtain ⟨l₂, hconcat, hrows⟩ := ih hshows fun s hs row hrow =>
      hlike.width ▸ hw s (List.mem_cons_of_mem _ hs) row hrow
    refine ⟨l₂, by rw [concatenate, hdrain]; exact hconcat, ?_⟩
    rw [hrows, hlike.shown, List.flatten_cons, List.append_assoc]

/-! ### The limit a shard is asked for -/

def mustBeConstant (what hint : String) : Refusal :=
  notYet ("multi-shard " ++ what ++ " must be an integer constant") hint

def nonNegative (what : String) (v : Int) : Except Refusal Int :=
  if v < 0 then .error { code := "2201W", message := what ++ " must not be negative" } else .ok v

/-- The source's `limitValue`: -1 for an absent clause and for NULL. -/
def limitValue (node : Option Node) (what : String) : Except Refusal Int :=
  match node with
  | none => .ok (-1)
  | some (.aConst .null) => .ok (-1)
  | some (.aConst (.ival i)) => nonNegative what i
  | some (.aConst (.fval s)) =>
    match pgStrToInt64 (bytesOf s) with
    | .error _ => .error (mustBeConstant what "")
    | .ok i => nonNegative what i
  | some (.aConst _) => .error (mustBeConstant what "")
  | some _ => .error (mustBeConstant what
      ("parameters and expressions in " ++ what ++ " are not available across shards yet"))

def limits (s : SelectStmt Node) : Except Refusal (Int × Int) :=
  match limitValue s.limitCount "LIMIT" with
  | .error e => .error e
  | .ok limit =>
    match limitValue s.limitOffset "OFFSET" with
    | .error e => .error e
    | .ok offset => .ok (limit, offset)

def maxInt64 : Int := 2 ^ 63 - 1

/-- An integer constant of the statement, kept as text beyond 32 bits. -/
def intConst (v : Int) : Node :=
  if v > 2 ^ 31 - 1 then .aConst (.fval (toString v.toNat)) else .aConst (.ival v)

/-- LIMIT+OFFSET without overflow. -/
def pushedCount (limit offset : Int) : Int :=
  if 0 < offset then
    if limit > maxInt64 - offset then maxInt64 else limit + offset
  else limit

def pushLimit (s : SelectStmt Node) (limit offset : Int) : SelectStmt Node :=
  if 0 ≤ limit then
    { s with limitCount := some (intConst (pushedCount limit offset)), limitOffset := none }
  else if 0 ≤ offset then { s with limitOffset := none }
  else s

/-- The number a constant of LIMIT or OFFSET stands for on a shard; none for an absent clause and
for NULL. -/
def asked : Option Node → Option Nat
  | some (.aConst (.ival i)) => some i.toNat
  | some (.aConst (.fval s)) => (atoi s.toList).map Int.toNat
  | _ => none

@[simp] lemma asked_none : asked none = none := rfl

/-- The rows a shard returns for its statement, out of the whole result in order. -/
def shardRows (s : SelectStmt Node) (rows : List Row) : List Row :=
  let rest := rows.drop ((asked s.limitOffset).getD 0)
  match asked s.limitCount with
  | none => rest
  | some n => rest.take n

lemma asked_intConst (v : Int) : asked (some (intConst v)) = some v.toNat := by
  unfold intConst
  split
  · have hdigits : (toString v.toNat).toList = Nat.toDigits 10 v.toNat := Nat.toList_repr
    rw [asked, hdigits, atoi_toDigits]
    rfl
  · rfl

lemma nonNegative_ok {what : String} {i v : Int} (h : nonNegative what i = .ok v) : 0 ≤ v := by
  unfold nonNegative at h
  split at h
  · cases h
  · cases h
    omega

lemma limitValue_ok {node : Option Node} {what : String} {v : Int} (h : limitValue node what = .ok v) :
    0 ≤ v ∨ asked node = none := by
  unfold limitValue at h
  split at h
  · exact .inr rfl
  · exact .inr rfl
  · exact .inl (nonNegative_ok h)
  · split at h
    · cases h
    · exact .inl (nonNegative_ok h)
  · cases h
  · cases h

/-- The rows a shard can return: of the width of the description, with keys that can be decoded, in
the order of the sort keys, and no more of them than a 64-bit row count counts. -/
structure ShardResult (ks : List KeyColumn) (width : Nat) where
  rows : List Row
  wide : ∀ row ∈ rows, row.length = width
  keyed : ∀ row ∈ rows, ∃ key, keyOf row ks = .ok key
  sorted : rows.Pairwise fun a b => rowLe ks a b = true
  counted : (rows.length : Int) ≤ maxInt64

variable {ks : List KeyColumn} {width : Nat}

def ShardResult.all (results : List (ShardResult ks width)) : List (List Row) := results.map ShardResult.rows

lemma ShardResult.readable (results : List (ShardResult ks width)) : Readable ks width (ShardResult.all results) := by
  intro l hl row hrow
  obtain ⟨r, _, rfl⟩ := List.mem_map.mp hl
  exact ⟨r.wide row hrow, r.keyed row hrow⟩

/-- What the shards return for the pushed-down statement: everything without a LIMIT, and otherwise
enough rows of each that the cut cannot be seen. -/
lemma shardRows_pushed {s : SelectStmt Node} {limit offset : Int} (h : limits s = .ok (limit, offset))
    (results : List (ShardResult ks width)) : ∃ cut : List Row → List Row, (∀ rows, cut rows <+: rows) ∧
      (results.map fun r => shardRows (pushLimit s limit offset) r.rows) = (ShardResult.all results).map cut ∧
      ((∀ r ∈ results, cut r.rows = r.rows) ∨
        0 ≤ limit ∧ ∃ n, limit.toNat + offset.toNat ≤ n ∧ cut = List.take n) := by
  unfold limits at h
  split at h
  · cases h
  · rename_i lim hlim
    split at h
    · cases h
    · rename_i off hoff
      cases h
      by_cases hl : 0 ≤ limit
      · refine ⟨List.take (pushedCount limit offset).toNat, fun rows => List.take_prefix _ _, ?_, ?_⟩
        · rw [ShardResult.all, List.map_map]
          apply List.map_congr_left
          intro r _
          simp [pushLimit, hl, shardRows, asked_intConst]
        · by_cases hn : limit.toNat + offset.toNat ≤ (pushedCount limit offset).toNat
          · exact .inr ⟨hl, _, hn, rfl⟩
          · refine .inl fun r _ => List.take_of_length_le ?_
            have := r.counted
            unfold pushedCount at hn ⊢
            split at hn
            · split at hn <;> omega
            · omega
      · refine ⟨id, fun rows => List.prefix_refl _, ?_, .inl fun _ _ => rfl⟩
        have hnone : asked s.limitCount = none := (limitValue_ok hlim).resolve_left hl
        rw [ShardResult.all, List.map_map]
        apply List.map_congr_left
        intro r _
        by_cases ho : 0 ≤ offset
        · simp [pushLimit, hl, ho, shardRows, hnone]
        · have hnone' : asked s.limitOffset = none := (limitValue_ok hoff).resolve_left ho
          simp [pushLimit, hl, ho, shardRows, hnone, hnone']

lemma window_take {α : Type} {limit offset : Int} {n : Nat} {xs ys : List α} (hl : 0 ≤ limit)
    (hn : limit.toNat + offset.toNat ≤ n) (h : xs.take n = ys.take n) :
    window limit offset xs = window limit offset ys := by
  have hcut : xs.take (offset.toNat + limit.toNat) = ys.take (offset.toNat + limit.toNat) := by
    have := congrArg (List.take (offset.toNat + limit.toNat)) h
    rwa [List.take_take, List.take_take, Nat.min_eq_left (by omega)] at this
  unfold window
  rw [if_neg (by omega), if_neg (by omega), List.take_drop, List.take_drop, hcut]

/-- Everything the shards hold, as the client's ORDER BY combines it. -/
def combined (spec : Merge) (ks : List KeyColumn) (all : List (List Row)) : List Row :=
  if spec.orderBy = [] then all.flatten else Merge.stable (rowLe ks) all

/-- The rows of the client are those of its LIMIT and OFFSET over everything the shards hold. -/
theorem merge_window (decode : Column → Bytes → Except Refusal Value) (spec : Merge)
    (cols : List Column) (s : SelectStmt Node) (ks : List KeyColumn)
    (hlimits : limits s = .ok (spec.limit, spec.offset))
    (hks : newRowComparator decode cols spec.hidden spec.orderBy = .ok ks)
    (results : List (ShardResult ks cols.length)) : merge decode spec cols
        (results.map fun r => shardRows (pushLimit s spec.limit spec.offset) r.rows) =
      .ok ((window spec.limit spec.offset (combined spec ks (ShardResult.all results))).map
        (stripped spec.hidden)) := by
  obtain ⟨cut, hsub, hrows, hcut⟩ := shardRows_pushed hlimits results
  have hread : Readable ks cols.length ((ShardResult.all results).map cut) := by
    intro l hl row hrow
    obtain ⟨l', hl', rfl⟩ := List.mem_map.mp hl
    exact ShardResult.readable results l' hl' row ((hsub l').subset hrow)
  rw [hrows]
  have hsame : window spec.limit spec.offset (combined spec ks ((ShardResult.all results).map cut)) =
      window spec.limit spec.offset (combined spec ks (ShardResult.all results)) := by
    rcases hcut with hid | ⟨hl, n, hn, rfl⟩
    · have : (ShardResult.all results).map cut = ShardResult.all results := by
        rw [ShardResult.all, List.map_map]
        exact List.map_congr_left hid
      rw [this]
    · refine window_take hl hn ?_
      unfold combined
      split
      · exact Merge.take_flatten_map_take (Nat.le_refl n) _
      · exact Merge.take_stable_map_take _ (Nat.le_refl n) _
  rw [← hsame]
  have hsaw : Limiter.Saw { limit := spec.limit, offset := spec.offset, hidden := spec.hidden
                            width := cols.length } [] := ⟨rfl, by simp [Limiter.shown, window]⟩
  unfold merge combined
  cases horder : spec.orderBy with
  | nil =>
    obtain ⟨out, hout, hemitted⟩ := concatenate_shows ⟨[], [], rfl, hsaw, .inl rfl⟩
      fun source hs row hrow => (hread source hs row hrow).1
    simp only [hout, if_true]
    rw [Except.map, hemitted]
    simp [Limiter.shown]
  | cons k rest =>
    rw [horder] at hks
    obtain ⟨out, hout, hemitted⟩ := mergeOrdered_window hread hsaw
    simp only [hks, hout]
    rw [Except.map, hemitted]
    simp [Limiter.shown]

/-- A parameter in LIMIT is refused before anything runs. -/
theorem limits_refuse_parameter : ∃ e, limits { limitCount := some (.paramRef 1) } = .error e ∧
    e.hint = "parameters and expressions in LIMIT are not available across shards yet" :=
  ⟨_, rfl, by decide⟩

/-- A decoder that reads one byte as an integer. -/
def oneByte (_ : Column) (b : Bytes) : Except Refusal Value := .ok { i := (b.headD 0).toNat }

def byFirst : List KeyColumn :=
  [{ column := 0, desc := false, nullsFirst := false, fam := .int, decode := oneByte { typeOID := 23 } }]

def numbers (rows : List UInt8) (hsorted : (rows.map fun b => [some [b]]).Pairwise
    fun a b => rowLe byFirst a b = true) (hcount : (rows.length : Int) ≤ maxInt64) : ShardResult byFirst 1 where
  rows := rows.map fun b => [some [b]]
  wide := by
    intro row hrow
    obtain ⟨b, _, rfl⟩ := List.mem_map.mp hrow
    rfl
  keyed := by
    intro row hrow
    obtain ⟨b, _, rfl⟩ := List.mem_map.mp hrow
    exact ⟨_, rfl⟩
  sorted := hsorted
  counted := by simpa using hcount

def oneFour : ShardResult byFirst 1 := numbers [1, 4] (by decide) (by decide)

def twoThree : ShardResult byFirst 1 := numbers [2, 3] (by decide) (by decide)

lemma stable_numbers : Merge.stable (rowLe byFirst) [oneFour.rows, twoThree.rows] =
    [[some [1]], [some [2]], [some [3]], [some [4]]] := by
  have h12 : rowLe byFirst [some [1]] [some [2]] = true := by decide
  have h42 : rowLe byFirst [some [4]] [some [2]] = false := by decide
  have h43 : rowLe byFirst [some [4]] [some [3]] = false := by decide
  simp [oneFour, twoThree, numbers, h12, h42, h43]

/-- ORDER BY 1 LIMIT 2 OFFSET 1 over the shards {1, 4} and {2, 3}. -/
theorem merge_window_two_shards :
    merge oneByte { orderBy := [{ column := 0 }], limit := 2, offset := 1 } [{ typeOID := 23 }]
        ([oneFour, twoThree].map fun r => shardRows (pushLimit
          { limitCount := some (.aConst (.ival 2)), limitOffset := some (.aConst (.ival 1)) } 2 1) r.rows) =
      .ok [[some [2]], [some [3]]] := by
  have h := merge_window oneByte { orderBy := [{ column := 0 }], limit := 2, offset := 1 } [{ typeOID := 23 }]
    { limitCount := some (.aConst (.ival 2)), limitOffset := some (.aConst (.ival 1)) } byFirst rfl rfl
    [oneFour, twoThree]
  refine h.trans ?_
  rw [combined, if_neg (by decide), ShardResult.all]
  simp only [List.map_cons, List.map_nil, stable_numbers]
  decide

end PgShard.Scatter
