import PgShard.Hoare.Leads
import PgShard.Merge.Stable
import PgShard.Scatter.Compare

/-!
# Merging the shard streams

The rows of several shards combined into the rows of the client: laid end to end, or merged by the
sort keys through a heap of the streams' first rows, with OFFSET and LIMIT applied on the way out.
A heap is the list of what it holds; taking from it takes its least element.
-/

namespace PgShard.Scatter

open Key

/-- One ORDER BY key of the plan over the shard rows. -/
structure PlanKey where
  column : Nat
  fromHidden : Bool := false
  desc : Bool := false
  nullsFirst : Bool := false
  cCollation : Bool := false
  deriving DecidableEq, Repr

/-- The place of a key in a shard row of the given width. -/
def PlanKey.index (k : PlanKey) (width hidden : Nat) : Int :=
  if k.fromHidden then (width : Int) - hidden + k.column else k.column

/-- How the executor combines the shard streams; a negative limit or offset is an absent one. -/
structure Merge where
  hidden : Nat := 0
  orderBy : List PlanKey := []
  limit : Int := -1
  offset : Int := -1
  deriving DecidableEq, Repr

/-- A column of the shard rows. -/
structure Column where
  typeOID : Nat
  format : Nat := 0
  deriving DecidableEq, Repr

def outsideRow (column : Int) (width : Nat) : Refusal :=
  { code := "XX000"
    message := s!"router: sort key column {column} outside the {width}-column shard row" }

/-- The source's `ComparatorFor`, as far as it refuses. -/
def comparable (oid : Nat) (cCollation : Bool) : Except Refusal Unit :=
  match familyOf oid, cCollation with
  | .none, _ => .error
      { code := "0A000"
        message := s!"multi-shard ORDER BY on a column of type oid {oid} is not available yet"
        hint := "order by an integer, numeric, float, boolean, date, timestamp, uuid, bytea or COLLATE \"C\" text column" }
  | .textCollated, false => .error
      { code := "0A000"
        message := "multi-shard ORDER BY on a text column needs an explicit COLLATE \"C\""
        hint := "the router orders text bytewise only; write ORDER BY col COLLATE \"C\", or filter on one shard key value" }
  | _, _ => .ok ()

/-- One key of `NewRowComparator`; `decode` is the decoder of a column's type and format. -/
def resolveKey (decode : Column → Bytes → Except Refusal Value) (cols : List Column) (hidden : Nat)
    (k : PlanKey) : Except Refusal KeyColumn :=
  let i := k.index cols.length hidden
  if i < 0 then .error (outsideRow i cols.length)
  else
    match cols[i.toNat]? with
    | none => .error (outsideRow i cols.length)
    | some col =>
      match comparable col.typeOID k.cCollation with
      | .error e => .error e
      | .ok () => .ok
          { column := i.toNat, desc := k.desc, nullsFirst := k.nullsFirst
            fam := familyOf col.typeOID, decode := decode col }

/-- The source's `NewRowComparator`. -/
def newRowComparator (decode : Column → Bytes → Except Refusal Value) (cols : List Column)
    (hidden : Nat) : List PlanKey → Except Refusal (List KeyColumn)
  | [] => .ok []
  | k :: ks =>
    match resolveKey decode cols hidden k with
    | .error e => .error e
    | .ok key =>
      match newRowComparator decode cols hidden ks with
      | .error e => .error e
      | .ok keys => .ok (key :: keys)

/-- The rows of the client so far: OFFSET and LIMIT applied, hidden columns stripped. -/
structure Limiter where
  limit : Int
  offset : Int
  hidden : Nat
  width : Nat
  seen : Nat := 0
  emitted : List Row := []
  deriving DecidableEq, Repr

def Limiter.done (l : Limiter) : Bool := 0 ≤ l.limit && l.limit ≤ l.emitted.length

/-- A row without the columns the router appended. -/
def stripped (hidden : Nat) (row : Row) : Row := row.take (row.length - hidden)

def Limiter.push (l : Limiter) (row : Row) : Except Refusal Limiter :=
  if row.length ≠ l.width then
    .error { code := "XX000"
             message := s!"router: shard row has {row.length} columns, expected {l.width}" }
  else
    let l := { l with seen := l.seen + 1 }
    if 0 < l.offset ∧ (l.seen : Int) ≤ l.offset then .ok l
    else if l.done then .ok l
    else .ok { l with emitted := l.emitted ++ [stripped l.hidden row] }

/-- One source of `concatenate`. -/
def drain : Limiter → List Row → Except Refusal Limiter
  | l, [] => .ok l
  | l, row :: rest =>
    if l.done then .ok l
    else
      match l.push row with
      | .error e => .error e
      | .ok l => drain l rest

/-- The streams one after the other. -/
def concatenate : Limiter → List (List Row) → Except Refusal Limiter
  | l, [] => .ok l
  | l, source :: rest =>
    match drain l source with
    | .error e => .error e
    | .ok l => concatenate l rest

/-- The first row of a stream, with its decoded key and the stream's place. -/
structure Head where
  row : Row
  src : Nat
  key : SortKey
  deriving DecidableEq, Repr

/-- The order of the heap: ties keep shard order. -/
def less (ks : List KeyColumn) (x y : Head) : Bool :=
  match compareKeys ks x.key y.key with
  | .eq => x.src < y.src
  | .lt => true
  | .gt => false

/-- The least of the heap's rows, and the others. -/
def least (ks : List KeyColumn) : Head → List Head → Head × List Head
  | h, [] => (h, [])
  | h, x :: rest =>
    if less ks x h then
      let (m, others) := least ks x rest
      (m, h :: others)
    else
      let (m, others) := least ks h rest
      (m, x :: others)

lemma least_length (ks : List KeyColumn) (h : Head) (rest : List Head) :
    (least ks h rest).2.length = rest.length := by
  induction rest generalizing h with
  | nil => rfl
  | cons x rest ih =>
    unfold least
    split <;> simp [ih]

/-- The rows still in the streams. -/
def remaining (sources : List (List Row)) : Nat := (sources.map List.length).sum

lemma remaining_set {sources : List (List Row)} {i : Nat} {row : Row} {tail : List Row}
    (h : sources[i]? = some (row :: tail)) : remaining (sources.set i tail) + 1 = remaining sources := by
  induction sources generalizing i with
  | nil => cases h
  | cons s sources ih =>
    cases i with
    | zero =>
      cases h
      simp only [remaining, List.set_cons_zero, List.map_cons, List.sum_cons, List.length_cons]
      omega
    | succ i =>
      have := ih (i := i) (by simpa using h)
      simp only [remaining, List.set_cons_succ, List.map_cons, List.sum_cons] at this ⊢
      omega

/-- The first row of every stream that has one. -/
def firstHeads (ks : List KeyColumn) : Nat → List (List Row) → Except Refusal (List Head)
  | _, [] => .ok []
  | i, [] :: rest => firstHeads ks (i + 1) rest
  | i, (row :: _) :: rest =>
    match keyOf row ks with
    | .error e => .error e
    | .ok key =>
      match firstHeads ks (i + 1) rest with
      | .error e => .error e
      | .ok heads => .ok ({ row := row, src := i, key := key } :: heads)

/-- The loop of `mergeOrdered`: the least row goes out and its stream gives its next one. -/
def mergeLoop (ks : List KeyColumn) (heap : List Head) (sources : List (List Row)) (out : Limiter) :
    Except Refusal Limiter :=
  match heap with
  | [] => .ok out
  | h :: rest =>
    if out.done then .ok out
    else
      match out.push (least ks h rest).1.row with
      | .error e => .error e
      | .ok out =>
        match hs : sources[(least ks h rest).1.src]? with
        | some (row :: tail) =>
          match keyOf row ks with
          | .error e => .error e
          | .ok key =>
            have := remaining_set hs
            mergeLoop ks ((least ks h rest).2 ++ [{ row := row, src := (least ks h rest).1.src, key := key }])
              (sources.set (least ks h rest).1.src tail) out
        | _ => mergeLoop ks (least ks h rest).2 sources out
termination_by heap.length + remaining sources
decreasing_by
  · simp only [List.length_append, List.length_cons, List.length_nil, least_length]
    omega
  · simp only [List.length_cons, least_length]
    omega

/-- The streams merged by the sort keys. -/
def mergeOrdered (ks : List KeyColumn) (sources : List (List Row)) (out : Limiter) : Except Refusal Limiter :=
  match firstHeads ks 0 sources with
  | .error e => .error e
  | .ok heap => mergeLoop ks heap (sources.map List.tail) out

/-- The source's `Merge`, without aggregates: the rows the client gets. -/
def merge (decode : Column → Bytes → Except Refusal Value) (spec : Merge) (cols : List Column)
    (sources : List (List Row)) : Except Refusal (List Row) :=
  let out : Limiter := { limit := spec.limit, offset := spec.offset, hidden := spec.hidden
                         width := cols.length }
  match spec.orderBy with
  | [] => (concatenate out sources).map Limiter.emitted
  | keys =>
    match newRowComparator decode cols spec.hidden keys with
    | .error e => .error e
    | .ok ks => (mergeOrdered ks sources out).map Limiter.emitted

/-- The rows at positions OFFSET to OFFSET+LIMIT. -/
def window {α : Type} (limit offset : Int) (rows : List α) : List α :=
  if limit < 0 then rows.drop offset.toNat else (rows.drop offset.toNat).take limit.toNat

/-- What the client gets of the rows. -/
def Limiter.shown (l : Limiter) (rows : List Row) : List Row := (window l.limit l.offset rows).map (stripped l.hidden)

/-- The settings are the same. -/
structure Limiter.Like (l l' : Limiter) : Prop where
  limit : l'.limit = l.limit
  offset : l'.offset = l.offset
  hidden : l'.hidden = l.hidden
  width : l'.width = l.width

lemma Limiter.Like.trans {l l' l'' : Limiter} (h : l.Like l') (h' : l'.Like l'') : l.Like l'' :=
  ⟨h'.limit.trans h.limit, h'.offset.trans h.offset, h'.hidden.trans h.hidden, h'.width.trans h.width⟩

lemma Limiter.Like.shown {l l' : Limiter} (h : l.Like l') (rows : List Row) : l'.shown rows = l.shown rows := by
  simp only [Limiter.shown, h.limit, h.offset, h.hidden]

/-- The limiter after it saw some rows. -/
structure Limiter.Saw (l : Limiter) (rows : List Row) : Prop where
  seen : l.seen = rows.length
  emitted : l.emitted = l.shown rows

/-- Once the limiter is done, no further row changes the window. -/
lemma Limiter.Saw.done {l : Limiter} {rows : List Row} (h : l.Saw rows) (hd : l.done = true)
    (more : List Row) : l.emitted = l.shown (rows ++ more) := by
  simp only [Limiter.done, Bool.and_eq_true, decide_eq_true_eq, h.emitted, Limiter.shown, List.length_map] at hd
  rw [h.emitted, Limiter.shown, Limiter.shown]
  congr 1
  unfold window at hd ⊢
  rw [if_neg (by omega)] at hd ⊢
  rw [if_neg (by omega)]
  have hlen : l.limit.toNat ≤ (rows.drop l.offset.toNat).length := by
    rw [List.length_take] at hd
    omega
  rcases Nat.le_total l.offset.toNat rows.length with hoff | hoff
  · rw [List.drop_append_of_le_length hoff, List.take_append_of_le_length hlen]
  · have hz : l.limit.toNat = 0 := by
      rw [List.length_drop] at hlen
      omega
    simp [hz]

lemma Limiter.Saw.push {l : Limiter} {rows : List Row} {row : Row} (h : l.Saw rows) (hw : row.length = l.width) :
    ∃ l', l.push row = .ok l' ∧ l'.Saw (rows ++ [row]) ∧ l.Like l' := by
  unfold Limiter.push
  rw [if_neg (not_not.mpr hw)]
  dsimp only
  by_cases hskip : 0 < l.offset ∧ ((l.seen + 1 : Nat) : Int) ≤ l.offset
  · rw [if_pos hskip]
    refine ⟨_, rfl, ⟨by simp [h.seen], ?_⟩, ⟨rfl, rfl, rfl, rfl⟩⟩
    have hdrop : (rows ++ [row]).drop l.offset.toNat = [] := by
      rw [List.drop_eq_nil_iff]
      simp only [List.length_append, List.length_cons, List.length_nil]
      have := h.seen
      omega
    have hdrop' : rows.drop l.offset.toNat = [] := by
      rw [List.drop_eq_nil_iff]
      have := h.seen
      omega
    rw [h.emitted]
    simp [Limiter.shown, window, hdrop, hdrop']
  · rw [if_neg hskip]
    by_cases hd : l.done = true
    · rw [if_pos (by exact hd)]
      refine ⟨_, rfl, ⟨by simp [h.seen], ?_⟩, ⟨rfl, rfl, rfl, rfl⟩⟩
      exact h.done hd [row]
    · rw [if_neg (by exact hd)]
      refine ⟨_, rfl, ⟨by simp [h.seen], ?_⟩, ⟨rfl, rfl, rfl, rfl⟩⟩
      have hoff : l.offset.toNat ≤ rows.length := by
        have := h.seen
        omega
      have hgrow : window l.limit l.offset (rows ++ [row]) = window l.limit l.offset rows ++ [row] := by
        simp only [Limiter.done, Bool.and_eq_true, decide_eq_true_eq, h.emitted, Limiter.shown, List.length_map] at hd
        unfold window at hd ⊢
        rw [List.drop_append_of_le_length hoff]
        by_cases hlim : l.limit < 0
        · simp [hlim]
        · simp only [if_neg hlim, List.length_take] at hd ⊢
          rw [List.take_append, List.take_of_length_le (by omega)]
          have hone : 1 ≤ l.limit.toNat - (rows.drop l.offset.toNat).length := by omega
          rw [List.take_of_length_le (l := [row]) (by simpa using hone)]
      simp [h.emitted, Limiter.shown, hgrow]

end PgShard.Scatter
