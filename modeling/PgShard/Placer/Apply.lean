import PgShard.Placer.Route
import PgShard.Replay.Cell

/-!
# Applying operations to the shadow tables

The operations of one target are joined into statements: a run of upserts becomes one `INSERT`, a run of
deletes one `DELETE`. A shadow table is known by what it holds under each value of the primary key.
-/

namespace PgShard.Placer

open Key Replay

/-- `literalBytes`: what a value occupies once it is written as a literal. -/
def literalBytes : Option Bytes → Nat
  | none => 4
  | some v => v.length + v.count 39 + v.count 92 + 2 + if v.contains 92 then 1 else 0

/-- What an upsert occupies. -/
def upBytes (row : Tuple) : Nat := 2 * row.values.length + 3 + (row.values.map literalBytes).sum

/-- What a delete occupies: only the key is written. -/
def delBytes (shape : RowShape) (row : Tuple) : Nat :=
  3 + ((shape.pkKey row.values).map fun v => literalBytes v + 2).sum

inductive Statement
  | upsert (rows : List Tuple)
  | delete (rows : List Tuple)
  | sql (row : Tuple)
  deriving DecidableEq, Repr

def applyBatchOps : Nat := 500
def applyBatchBytes : Nat := 1048576

/-- A run of upserts ends at a key it has already carried. -/
def upsFull (shape : RowShape) (ups : List Tuple) (row : Tuple) : Bool :=
  (ups.map fun u => shape.pkKey u.values).contains (shape.pkKey row.values) ||
    applyBatchOps ≤ ups.length || applyBatchBytes ≤ (ups.map upBytes).sum

def delsFull (shape : RowShape) (dels : List Tuple) : Bool :=
  applyBatchOps ≤ dels.length || applyBatchBytes ≤ (dels.map (delBytes shape)).sum

def flushUps (ups : List Tuple) : List Statement := if ups = [] then [] else [.upsert ups]
def flushDels (dels : List Tuple) : List Statement := if dels = [] then [] else [.delete dels]

/-- The statements of one target's operations, with the run of upserts and the run of deletes that are
open. -/
def coalesceFrom (shape : RowShape) (ups dels : List Tuple) : List OpKind → List Statement
  | [] => flushUps ups ++ flushDels dels
  | .up row :: ops =>
    flushDels dels ++ if upsFull shape ups row then flushUps ups ++ coalesceFrom shape [row] [] ops
      else coalesceFrom shape (ups ++ [row]) [] ops
  | .del row :: ops =>
    flushUps ups ++ if delsFull shape dels then flushDels dels ++ coalesceFrom shape [] [row] ops
      else coalesceFrom shape [] (dels ++ [row]) ops
  | .sql row :: ops => flushUps ups ++ flushDels dels ++ .sql row :: coalesceFrom shape [] [] ops

def coalesce (shape : RowShape) (ops : List OpKind) : List Statement := coalesceFrom shape [] [] ops

/-- The operations bound for one target. -/
def kindsFor (ops : List ApplyOp) (target : Int) : List OpKind := (ops.filter (·.shard = target)).map ApplyOp.kind

/-- What a target is sent. -/
def statementsFor (shape : RowShape) (ops : List ApplyOp) (target : Int) : List Statement :=
  coalesce shape (kindsFor ops target)

/-- An upsert of a row that is there sets every column but those of the primary key and the GENERATED
ALWAYS ones. -/
def RowShape.kept (s : RowShape) (i : Nat) : Bool := s.columns[i]?.any (s.pk.contains ·) || s.identityAlways i

def RowShape.keep (s : RowShape) (old new : List (Option Bytes)) : List (Option Bytes) :=
  (List.range s.columns.length).map fun i => (if s.kept i then old else new).getD i none

lemma RowShape.keep_keep (s : RowShape) (o r r' : List (Option Bytes)) : s.keep (s.keep o r) r' = s.keep o r' := by
  refine List.map_congr_left fun i hi => ?_
  have hlt : i < s.columns.length := List.mem_range.mp hi
  by_cases hk : s.kept i = true
  · simp [keep, hk, hlt]
  · simp [hk]

section

-- `keyOf` is the value PostgreSQL reads from the texts of a primary key
variable {K : Type*} [DecidableEq K] (shape : RowShape) (keyOf : List (Option Bytes) → K)
  (defaults : List (Option Bytes))

abbrev ShadowTable (K : Type*) := K → Option (List (Option Bytes))

def Tuple.key (row : Tuple) : K := keyOf (shape.pkKey row.values)

def putRow (table : ShadowTable K) (row : Tuple) : ShadowTable K :=
  Function.update table (row.key shape keyOf) ((Write.put row.values).run shape.keep (table (row.key shape keyOf)))

def dropRow (table : ShadowTable K) (row : Tuple) : ShadowTable K := Function.update table (row.key shape keyOf) none

/-- An upsert of the columns a row carries; a row that is not there gets `defaults` in the others. -/
def putSome (table : ShadowTable K) (row : Tuple) : ShadowTable K :=
  Function.update table (row.key shape keyOf) <| some <|
    match table (row.key shape keyOf) with
    | none => row.values.zipIdx.map fun (v, i) =>
        if row.unchanged.getD i false then defaults.getD i none else v
    | some old => (shape.keep old row.values).zipIdx.map fun (v, i) =>
        if row.unchanged.getD i false then old.getD i none else v

/-- An upsert has columns to set. -/
def RowShape.sets (s : RowShape) : Bool := (List.range s.columns.length).any (!s.kept ·)

/-- A statement run on a shadow table. An upsert that sets columns must not meet a row twice. -/
def Statement.exec (table : ShadowTable K) : Statement → Option (ShadowTable K)
  | .upsert rows =>
    if shape.sets && !decide ((rows.map fun r => r.key shape keyOf).Nodup) then none
    else some (rows.foldl (putRow shape keyOf) table)
  | .delete rows => some (rows.foldl (dropRow shape keyOf) table)
  | .sql row => some (putSome shape keyOf defaults table row)

def execAll (table : ShadowTable K) (stmts : List Statement) : Option (ShadowTable K) :=
  stmts.foldlM (Statement.exec shape keyOf defaults) table

def OpKind.run (table : ShadowTable K) : OpKind → ShadowTable K
  | .up row => putRow shape keyOf table row
  | .del row => dropRow shape keyOf table row
  | .sql row => putSome shape keyOf defaults table row

def runOps (table : ShadowTable K) (ops : List OpKind) : ShadowTable K :=
  ops.foldl (OpKind.run shape keyOf defaults) table

lemma runOps_append (table : ShadowTable K) (ops ops' : List OpKind) :
    runOps shape keyOf defaults table (ops ++ ops') =
      runOps shape keyOf defaults (runOps shape keyOf defaults table ops) ops' := List.foldl_append

/-- The operations a statement joins. -/
def Statement.ops : Statement → List OpKind
  | .upsert rows => rows.map .up
  | .delete rows => rows.map .del
  | .sql row => [.sql row]

lemma flushUps_ops (ups : List Tuple) : (flushUps ups).flatMap Statement.ops = ups.map .up := by
  by_cases h : ups = [] <;> simp [flushUps, h, Statement.ops]

lemma flushDels_ops (dels : List Tuple) : (flushDels dels).flatMap Statement.ops = dels.map .del := by
  by_cases h : dels = [] <;> simp [flushDels, h, Statement.ops]

/-- Only one of the two runs is open at a time, so the order is kept. -/
lemma coalesceFrom_ops (ups dels : List Tuple) (ops : List OpKind) (hopen : ups = [] ∨ dels = []) :
    (coalesceFrom shape ups dels ops).flatMap Statement.ops = ups.map .up ++ dels.map .del ++ ops := by
  induction ops generalizing ups dels with
  | nil => simp [coalesceFrom, flushUps_ops, flushDels_ops]
  | cons op ops ih =>
    cases op with
    | up row =>
      rcases hopen with rfl | rfl <;> simp only [coalesceFrom, List.flatMap_append, flushDels_ops] <;>
        split <;> simp [flushUps_ops, ih]
    | del row =>
      rcases hopen with rfl | rfl <;> simp only [coalesceFrom, List.flatMap_append, flushUps_ops] <;>
        split <;> simp [flushDels_ops, ih]
    | sql row =>
      simp [coalesceFrom, flushUps_ops, flushDels_ops, ih, Statement.ops]

lemma coalesce_ops (ops : List OpKind) : (coalesce shape ops).flatMap Statement.ops = ops := by
  simpa [coalesce] using coalesceFrom_ops shape [] [] ops (.inl rfl)

lemma mem_flushUps {stmt : Statement} {ups : List Tuple} (h : stmt ∈ flushUps ups) : stmt = .upsert ups := by
  simp only [flushUps] at h
  split at h <;> simp_all

/-- A run of upserts carries no key twice. -/
def Apart (rows : List Tuple) : Prop := (rows.map fun r => shape.pkKey r.values).Nodup

variable {shape} in
lemma Apart.snoc {ups : List Tuple} {row : Tuple} (h : Apart shape ups)
    (hfull : ¬ upsFull shape ups row = true) : Apart shape (ups ++ [row]) := by
  simp only [upsFull, Bool.or_eq_true, List.contains_iff_mem, not_or] at hfull
  rw [Apart, List.map_append]
  refine List.nodup_append.mpr ⟨h, by simp, ?_⟩
  intro x hx y hy hxy
  simp only [List.map_cons, List.map_nil, List.mem_singleton] at hy
  exact hfull.1.1 (hy ▸ hxy ▸ hx)

lemma coalesceFrom_apart (ups dels : List Tuple) (ops : List OpKind) (hups : Apart shape ups)
    {rows : List Tuple} (h : .upsert rows ∈ coalesceFrom shape ups dels ops) : Apart shape rows := by
  have hone : ∀ row, Apart shape [row] := fun row => by simp [Apart]
  have hnil : Apart shape [] := List.nodup_nil
  have hopen : ∀ ups, Apart shape ups → .upsert rows ∈ flushUps ups → Apart shape rows := by
    intro ups hups hmem
    cases mem_flushUps hmem
    exact hups
  have hnot : ∀ dels, Statement.upsert rows ∉ flushDels dels := by
    intro dels hmem
    unfold flushDels at hmem
    split at hmem <;> simp at hmem
  induction ops generalizing ups dels with
  | nil =>
    rcases List.mem_append.mp h with h | h
    · exact hopen ups hups h
    · exact absurd h (hnot dels)
  | cons op ops ih =>
    cases op with
    | up row =>
      rcases List.mem_append.mp h with h | h
      · exact absurd h (hnot dels)
      · split at h
        · rcases List.mem_append.mp h with h | h
          · exact hopen ups hups h
          · exact ih [row] [] (hone row) h
        · rename_i hfull
          exact ih (ups ++ [row]) [] (hups.snoc hfull) h
    | del row =>
      rcases List.mem_append.mp h with h | h
      · exact hopen ups hups h
      · split at h
        · rcases List.mem_append.mp h with h | h
          · exact absurd h (hnot dels)
          · exact ih [] [row] hnil h
        · exact ih [] (dels ++ [row]) hnil h
    | sql row =>
      simp only [coalesceFrom, List.mem_append, List.mem_cons, reduceCtorEq, false_or] at h
      rcases h with (h | h) | h
      · exact hopen ups hups h
      · exact absurd h (hnot dels)
      · exact ih [] [] hnil h

/-! ### Runs that meet no row twice -/

/-- Between two upserts of one key with different texts the row is deleted. -/
def Steady (ops : List OpKind) : Prop :=
  ∀ before a between b after, ops = before ++ .up a :: between ++ .up b :: after →
    a.key shape keyOf = b.key shape keyOf → shape.pkKey a.values = shape.pkKey b.values ∨
      ∃ d, .del d ∈ between ∧ d.key shape keyOf = a.key shape keyOf

variable {shape keyOf}

omit [DecidableEq K] in
lemma Steady.part {ops mid : List OpKind} (h : Steady shape keyOf ops) (pre post : List OpKind)
    (hops : ops = pre ++ mid ++ post) : Steady shape keyOf mid := by
  intro before a between b after hmid
  refine h (pre ++ before) a between b (after ++ post) ?_
  simp [hops, hmid]

lemma Steady.nodup {rows : List Tuple} (h : Steady shape keyOf (rows.map .up)) (hrows : Apart shape rows) :
    (rows.map fun r => r.key shape keyOf).Nodup := by
  induction rows with
  | nil => exact List.nodup_nil
  | cons a rows ih =>
    obtain ⟨hnot, hrest⟩ := List.nodup_cons.mp hrows
    refine List.nodup_cons.mpr ⟨?_, ih (h.part [.up a] [] (by simp)) hrest⟩
    intro hmem
    obtain ⟨b, hb, hkey⟩ := List.mem_map.mp hmem
    obtain ⟨l, l', rfl⟩ := List.append_of_mem hb
    rcases h [] a (l.map .up) b (l'.map .up) (by simp) hkey.symm with htext | ⟨d, hd, -⟩
    · exact hnot (List.mem_map.mpr ⟨b, hb, htext.symm⟩)
    · simp at hd

lemma exec_steady (table : ShadowTable K) (stmt : Statement) (hsteady : Steady shape keyOf stmt.ops)
    (happart : ∀ rows, stmt = .upsert rows → Apart shape rows) :
    stmt.exec shape keyOf defaults table = some (runOps shape keyOf defaults table stmt.ops) := by
  cases stmt with
  | upsert rows =>
    have hnodup := hsteady.nodup (happart rows rfl)
    simp [Statement.exec, hnodup, runOps, Statement.ops, List.foldl_map, OpKind.run]
  | delete rows => simp [Statement.exec, runOps, Statement.ops, List.foldl_map, OpKind.run]
  | sql row => simp [Statement.exec, runOps, Statement.ops, OpKind.run]

lemma execAll_steady (table : ShadowTable K) (stmts : List Statement)
    (hsteady : Steady shape keyOf (stmts.flatMap Statement.ops))
    (happart : ∀ rows, .upsert rows ∈ stmts → Apart shape rows) : execAll shape keyOf defaults table stmts =
      some (runOps shape keyOf defaults table (stmts.flatMap Statement.ops)) := by
  induction stmts generalizing table with
  | nil => rfl
  | cons stmt stmts ih =>
    rw [List.flatMap_cons] at hsteady
    have hfirst : Steady shape keyOf stmt.ops := hsteady.part [] (stmts.flatMap Statement.ops) (by simp)
    have hrest : Steady shape keyOf (stmts.flatMap Statement.ops) := hsteady.part stmt.ops [] (by simp)
    have hstep := exec_steady defaults table stmt hfirst fun rows heq =>
      happart rows (heq ▸ .head _)
    rw [List.flatMap_cons, runOps_append]
    simp only [execAll, List.foldlM_cons, hstep]
    exact ih _ hrest fun rows hmem => happart rows (.tail _ hmem)

/-- An operation as a statement of its own. -/
def OpKind.alone : OpKind → Statement
  | .up row => .upsert [row]
  | .del row => .delete [row]
  | .sql row => .sql row

lemma alone_ops (ops : List OpKind) : (ops.map OpKind.alone).flatMap Statement.ops = ops := by
  induction ops with
  | nil => rfl
  | cons op ops ih =>
    rw [List.map_cons, List.flatMap_cons, ih]
    cases op with
    | up row => rfl
    | del row => rfl
    | sql row => rfl

/-- When two keys are equal only if their texts are, the joined statements all succeed and leave what
the operations leave one at a time. -/
theorem coalesce_keeps_result
    (htext : ∀ a b : Tuple, a.key shape keyOf = b.key shape keyOf → shape.pkKey a.values = shape.pkKey b.values)
    (table : ShadowTable K) (ops : List OpKind) :
    ∃ result, execAll shape keyOf defaults table (coalesce shape ops) = some result ∧
      execAll shape keyOf defaults table (ops.map OpKind.alone) = some result := by
  have hsteady : Steady shape keyOf ops := fun _ a _ b _ _ hkey => .inl (htext a b hkey)
  refine ⟨runOps shape keyOf defaults table ops, ?_, ?_⟩
  · have hjoined := execAll_steady defaults table (coalesce shape ops) (by rwa [coalesce_ops])
      fun rows => coalesceFrom_apart shape [] [] ops List.nodup_nil
    rwa [coalesce_ops] at hjoined
  · have hsingle : ∀ rows, .upsert rows ∈ ops.map OpKind.alone → Apart shape rows := by
      intro rows hmem
      obtain ⟨op, -, hop⟩ := List.mem_map.mp hmem
      cases op with
      | up row =>
        cases hop
        exact List.nodup_cons.mpr ⟨List.not_mem_nil, List.nodup_nil⟩
      | del row | sql row => cases hop
    have hone := execAll_steady defaults table (ops.map OpKind.alone) (by rwa [alone_ops]) hsingle
    rwa [alone_ops] at hone

end

/-- A row that changes twice and is deleted, its text being its key. -/
theorem coalesce_of_one_key :
    let shape : RowShape := ⟨["id"], [], ["id"], by decide, by decide⟩
    let row : Tuple := ⟨[some [49]], []⟩
    ∃ result, execAll shape id [] (fun _ => none) (coalesce shape [.up row, .up row, .del row]) = some result ∧
      execAll shape id [] (fun _ => none) [.upsert [row], .upsert [row], .delete [row]] = some result := by
  intro shape row
  have htext : ∀ a b : Tuple, a.key shape id = b.key shape id → shape.pkKey a.values = shape.pkKey b.values :=
    fun _ _ h => h
  exact coalesce_keeps_result [] htext _ [.up row, .up row, .del row]

end PgShard.Placer
