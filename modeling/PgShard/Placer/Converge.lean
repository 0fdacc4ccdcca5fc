import PgShard.Placer.Exact

/-!
# The shadow tables converge

The changes of the sources are replayed over shadow tables that were copied from later snapshots, in
flushes that may fail and start again at the slot. Replayed from the state the slot started at, each
change takes the routed table to the next; a later start, or a flush that is done again, only means that a
first part of the operations is there already.
-/

namespace PgShard.Placer

open Key Replay

/-- A placement change under way: what each source has to replay, and how the rows of the table are
known. -/
structure Move (S K : Type*) where
  shape : RowShape
  keyOf : List (Option Bytes) → K
  defaults : List (Option Bytes)
  ops : S → List ApplyOp

/-- The shadow tables, none once a statement was refused; the operations behind each source's slot; and
those it has applied since it last started there. -/
structure Shadows (S K : Type*) where
  tables : Int → Option (ShadowTable K)
  slot : S → Nat := fun _ => 0
  cursor : S → Nat := fun _ => 0

inductive Turn (S : Type*)
  /-- The next operations are applied to all their targets. -/
  | flush (s : S) (n : Nat)
  /-- They fail after the first statements of each target, and the round is over. -/
  | fail (s : S) (n : Nat) (done : Int → Nat)
  | restart (s : S)
  /-- The slot follows what was applied. -/
  | advance (s : S)

section

variable {S K : Type*} [DecidableEq K] (m : Move S K)

/-- The operations of a source's next flush. -/
def Move.next (s : S) (from_ n : Nat) : List ApplyOp := ((m.ops s).drop from_).take n

def Shadows.send (p : Shadows S K) (stmts : Int → List Statement) : Int → Option (ShadowTable K) :=
  fun t => (p.tables t).bind fun table => execAll m.shape m.keyOf m.defaults table (stmts t)

def Shadows.step [DecidableEq S] (p : Shadows S K) : Turn S → Shadows S K
  | .flush s n =>
    { p with
      tables := p.send m fun t => statementsFor m.shape (m.next s (p.cursor s) n) t
      cursor := Function.update p.cursor s (min (p.cursor s + n) (m.ops s).length) }
  | .fail s n done =>
    { p with
      tables := p.send m fun t => (statementsFor m.shape (m.next s (p.cursor s) n) t).take (done t)
      cursor := Function.update p.cursor s (p.slot s) }
  | .restart s => { p with cursor := Function.update p.cursor s (p.slot s) }
  | .advance s => { p with slot := Function.update p.slot s (p.cursor s) }

def Shadows.run [DecidableEq S] (p : Shadows S K) (turns : List (Turn S)) : Shadows S K :=
  turns.foldl (Shadows.step m) p

/-- The writes to one row among the operations from one place to another. -/
def Move.writes (s : S) (t : Int) (k : K) (from_ n : Nat) : List (Write (List (Option Bytes))) :=
  writesTo m.shape m.keyOf k (kindsFor (m.next s from_ n) t)

/-- The writes to one row from a place on. -/
def Move.writesFrom (s : S) (t : Int) (k : K) (from_ : Nat) : List (Write (List (Option Bytes))) :=
  writesTo m.shape m.keyOf k (kindsFor ((m.ops s).drop from_) t)

variable (rt : PlacementRouter) (start : S → SourceTable K) (changes : S → List Change)

/-- The operations are those of changes the sources can make. -/
structure Replayable : Prop where
  follows : ∀ s, Follows m.shape m.keyOf (start s) (changes s)
  ops : ∀ s, opsOf rt m.shape (changes s) = .ok (m.ops s)

/-- The source has a row under the key at some time. -/
def Uses (s : S) (k : K) : Prop := ∃ n, sourceAfter m.shape m.keyOf (start s) ((changes s).take n) k ≠ none

variable {m rt start changes}

omit [DecidableEq K] in
lemma next_split (m : Move S K) (s : S) (a n : Nat) :
    m.ops s = (m.ops s).take a ++ m.next s a n ++ ((m.ops s).drop a).drop n := by
  rw [Move.next, List.append_assoc, List.take_append_drop, List.take_append_drop]

/-- The first statements of a flush are the first of its operations, and none is refused. -/
lemma Replayable.sent (h : Replayable m rt start changes) (s : S) (a n d : Nat) (t : Int) (table : ShadowTable K) :
    ∃ kinds rest, kindsFor (m.next s a n) t = kinds ++ rest ∧ Whole kinds ∧
      execAll m.shape m.keyOf m.defaults table ((statementsFor m.shape (m.next s a n) t).take d) =
        some (runOps m.shape m.keyOf m.defaults table kinds) ∧
      ((statementsFor m.shape (m.next s a n) t).length ≤ d → rest = []) := by
  have hparts : kindsFor (m.next s a n) t = ((statementsFor m.shape (m.next s a n) t).take d).flatMap Statement.ops ++
        ((statementsFor m.shape (m.next s a n) t).drop d).flatMap Statement.ops := by
    rw [← List.flatMap_append, List.take_append_drop, statementsFor, coalesce_ops]
  have hsplit : kindsFor (m.ops s) t = kindsFor ((m.ops s).take a) t ++
      ((statementsFor m.shape (m.next s a n) t).take d).flatMap Statement.ops ++
        (((statementsFor m.shape (m.next s a n) t).drop d).flatMap Statement.ops ++
          kindsFor (((m.ops s).drop a).drop n) t) := by
    rw [← List.append_assoc, List.append_assoc (kindsFor _ t), ← hparts, ← kindsFor_append, ← kindsFor_append,
      ← next_split]
  have hclean := (history_exact [] (h.follows s) (h.ops s) t).1
  have hwhole : Whole (((statementsFor m.shape (m.next s a n) t).take d).flatMap Statement.ops) := by
    intro row hmem
    refine hclean.whole row ?_
    rw [hsplit]
    simp [hmem]
  refine ⟨_, _, hparts, hwhole, ?_, ?_⟩
  · refine execAll_steady m.defaults table _ (hclean.steady.part _ _ hsplit) ?_
    intro rows hmem
    exact coalesceFrom_apart m.shape [] [] _ List.nodup_nil (List.mem_of_mem_take hmem)
  · intro hle
    rw [List.drop_eq_nil_of_le hle]
    rfl

/-- The row is what the operations since the slot made of one from which all of them lead to `goal`. -/
def Live (m : Move S K) (p : Shadows S K) (s : S) (t : Int) (k : K) (goal row : Option (List (Option Bytes))) : Prop :=
  ∃ base, row = replay m.shape.keep (m.writes s t k (p.slot s) (p.cursor s - p.slot s)) base ∧
    replay m.shape.keep (m.writesFrom s t k (p.slot s)) base = goal

structure Sound (m : Move S K) (start : S → SourceTable K) (changes : S → List Change)
    (goal : S → Int → K → Option (List (Option Bytes))) (p : Shadows S K) : Prop where
  bounds : ∀ s, p.slot s ≤ p.cursor s ∧ p.cursor s ≤ (m.ops s).length
  tables : ∀ t, ∃ table, p.tables t = some table ∧
    (∀ s k, Uses m start changes s k → Live m p s t k (goal s t k) (table k)) ∧
    ∀ k, (∀ s, ¬ Uses m start changes s k) → table k = none

section

variable {p p₁ : Shadows S K} {s : S} {t : Int} {k : K} {goal row : Option (List (Option Bytes))}

omit [DecidableEq K] in
lemma next_append (m : Move S K) (s : S) {a c : Nat} (n : Nat) (ha : a ≤ c) :
    m.next s a (min (c + n) (m.ops s).length - a) = m.next s a (c - a) ++ m.next s c n := by
  have htake : m.next s a (c - a) ++ m.next s c n = ((m.ops s).drop a).take (c - a + n) := by
    rw [List.take_add, List.drop_drop, Nat.add_sub_cancel' ha]
    rfl
  rw [htake, Move.next]
  by_cases hlen : c + n ≤ (m.ops s).length
  · rw [Nat.min_eq_left hlen, Nat.sub_add_comm ha]
  · rw [Nat.min_eq_right (by omega), List.take_of_length_le (by simp), List.take_of_length_le]
    rw [List.length_drop]
    omega

/-- What follows a place, in two parts. -/
lemma writesFrom_split (m : Move S K) (s : S) (t : Int) (k : K) {a c : Nat} (ha : a ≤ c) :
    m.writesFrom s t k a = m.writes s t k a (c - a) ++ m.writesFrom s t k c := by
  have hdrop : (m.ops s).drop a = m.next s a (c - a) ++ (m.ops s).drop c := by
    rw [Move.next, ← Nat.add_sub_cancel' ha, ← List.drop_drop, Nat.add_sub_cancel_left, List.take_append_drop]
  rw [Move.writesFrom, hdrop, kindsFor_append, writesTo_append]
  rfl

lemma writesFrom_next (m : Move S K) (s : S) (t : Int) (k : K) (c n : Nat) :
    m.writesFrom s t k c = m.writes s t k c n ++
      writesTo m.shape m.keyOf k (kindsFor (((m.ops s).drop c).drop n) t) := by
  rw [Move.writesFrom, Move.writes, Move.next, ← writesTo_append, ← kindsFor_append, List.take_append_drop]

section

variable (h : Live m p s t k goal row)

include h

lemma Live.congr (hslot : p₁.slot s = p.slot s) (hcursor : p₁.cursor s = p.cursor s) : Live m p₁ s t k goal row := by
  obtain ⟨base, hrow, hgoal⟩ := h
  exact ⟨base, by rw [hslot, hcursor]; exact hrow, by rw [hslot]; exact hgoal⟩

lemma Live.flush (hb : p.slot s ≤ p.cursor s) {n : Nat} (hslot : p₁.slot s = p.slot s)
    (hcursor : p₁.cursor s = min (p.cursor s + n) (m.ops s).length) :
    Live m p₁ s t k goal (replay m.shape.keep (m.writes s t k (p.cursor s) n) row) := by
  obtain ⟨base, hrow, hgoal⟩ := h
  refine ⟨base, ?_, by rw [hslot]; exact hgoal⟩
  rw [hrow, hslot, hcursor, ← replay_append, Move.writes, Move.writes, Move.writes, next_append m s n hb,
    kindsFor_append, writesTo_append]

/-- Back at the slot, after some of the operations that were to follow. -/
lemma Live.again (hb : p.slot s ≤ p.cursor s)
    {ws us : List (Write (List (Option Bytes)))} (hws : m.writesFrom s t k (p.cursor s) = ws ++ us)
    (hslot : p₁.slot s = p.slot s) (hcursor : p₁.cursor s = p.slot s) :
    Live m p₁ s t k goal (replay m.shape.keep ws row) := by
  obtain ⟨base, hrow, hgoal⟩ := h
  refine ⟨replay m.shape.keep ws row, ?_, ?_⟩
  · rw [hslot, hcursor, Nat.sub_self]
    rfl
  · rw [hslot, ← hgoal, hrow, writesFrom_split m s t k hb, hws, ← List.append_assoc, ← replay_append _ _ ws]
    exact replay_absorb m.shape.keep_keep _ _ _

lemma Live.advance (hb : p.slot s ≤ p.cursor s)
    (hslot : p₁.slot s = p.cursor s) (hcursor : p₁.cursor s = p.cursor s) : Live m p₁ s t k goal row := by
  obtain ⟨base, hrow, hgoal⟩ := h
  refine ⟨row, ?_, ?_⟩
  · rw [hslot, hcursor, Nat.sub_self]
    rfl
  · rw [hslot, ← hgoal, hrow, ← replay_append, ← writesFrom_split m s t k hb]

lemma Live.arrived (hend : p.cursor s = (m.ops s).length) : row = goal := by
  obtain ⟨base, hrow, hgoal⟩ := h
  have hall : m.next s (p.slot s) (p.cursor s - p.slot s) = (m.ops s).drop (p.slot s) := by
    rw [hend, ← List.length_drop]
    exact List.take_length
  rw [hrow, ← hgoal, Move.writes, hall]
  rfl

end

end

/-- A source leaves the rows alone whose keys it never has. -/
lemma Replayable.leaves (h : Replayable m rt start changes) {s : S} {k : K}
    (hno : ¬ Uses m start changes s k) {a n : Nat} {t : Int} {kinds rest : List OpKind}
    (hparts : kindsFor (m.next s a n) t = kinds ++ rest) : writesTo m.shape m.keyOf k kinds = [] := by
  have hnever : ∀ i, sourceAfter m.shape m.keyOf (start s) ((changes s).take i) k = none := by
    intro i
    by_contra hne
    exact hno ⟨i, hne⟩
  refine List.filterMap_eq_nil_iff.mpr ?_
  intro kind hkind
  have hmem : kind ∈ kindsFor (m.next s a n) t := hparts ▸ List.mem_append_left _ hkind
  obtain ⟨op, hop, rfl⟩ := List.mem_map.mp hmem
  refine untouched (h.follows s) (h.ops s) hnever op ?_
  exact List.mem_of_mem_drop (List.mem_of_mem_take (List.mem_of_mem_filter hop))

section

variable {goal : S → Int → K → Option (List (Option Bytes))} {p p₁ : Shadows S K}
  (h : Sound m start changes goal p) (hr : Replayable m rt start changes)
  (hdisjoint : ∀ s s' k, Uses m start changes s k → Uses m start changes s' k → s = s')

include h hr hdisjoint

/-- A turn of a source that applies some operations to each of its targets. -/
lemma Sound.turn {s : S} {n : Nat} {kinds rest : Int → List OpKind}
    (hsame : ∀ s', s' ≠ s → p₁.slot s' = p.slot s' ∧ p₁.cursor s' = p.cursor s')
    (hbounds : p₁.slot s ≤ p₁.cursor s ∧ p₁.cursor s ≤ (m.ops s).length)
    (hparts : ∀ t, kindsFor (m.next s (p.cursor s) n) t = kinds t ++ rest t)
    (htables : ∀ t table, p.tables t = some table → Whole (kinds t) ∧
      p₁.tables t = some (runOps m.shape m.keyOf m.defaults table (kinds t)))
    (hlive : ∀ t k goal row, Live m p s t k goal row →
      Live m p₁ s t k goal (replay m.shape.keep (writesTo m.shape m.keyOf k (kinds t)) row)) :
    Sound m start changes goal p₁ := by
  constructor
  · intro s'
    by_cases hs : s' = s
    · subst hs
      exact hbounds
    · rw [(hsame s' hs).1, (hsame s' hs).2]
      exact h.bounds s'
  · intro t
    obtain ⟨table, htable, hused, hunused⟩ := h.tables t
    obtain ⟨hwhole, hnew⟩ := htables t table htable
    refine ⟨_, hnew, ?_, ?_⟩
    · intro s' k huse
      rw [runOps_apply _ _ _ hwhole]
      by_cases hs : s' = s
      · subst hs
        exact hlive t k _ _ (hused s' k huse)
      · have hno : ¬ Uses m start changes s k := fun hs' => hs (hdisjoint s' s k huse hs')
        rw [hr.leaves hno (hparts t), replay_nil]
        exact (hused s' k huse).congr (hsame s' hs).1 (hsame s' hs).2
    · intro k hnone
      rw [runOps_apply _ _ _ hwhole, hr.leaves (hnone s) (hparts t), replay_nil]
      exact hunused k hnone

variable [DecidableEq S]

lemma Sound.fail (s : S) (n : Nat) (done : Int → Nat) : Sound m start changes goal (p.step m (.fail s n done)) := by
  have hb := h.bounds s
  choose tables htables using h.tables
  choose kinds rest hparts hwhole hexec hall using fun t => hr.sent s (p.cursor s) n (done t) t (tables t)
  refine @Sound.turn _ _ _ _ _ _ _ _ p _ h hr hdisjoint s n kinds rest ?_ ?_ hparts ?_ ?_
  · intro s' hs
    exact ⟨rfl, Function.update_of_ne hs _ _⟩
  · simp only [Shadows.step, Function.update_self]
    omega
  · intro t table htable
    obtain rfl : tables t = table := Option.some.inj ((htables t).1.symm.trans htable)
    refine ⟨hwhole t, ?_⟩
    simp only [Shadows.step, Shadows.send, htable, Option.bind_some, hexec t]
  · intro t k goal row hlive
    have hws : m.writesFrom s t k (p.cursor s) = writesTo m.shape m.keyOf k (kinds t) ++
        writesTo m.shape m.keyOf k (rest t ++ kindsFor (((m.ops s).drop (p.cursor s)).drop n) t) := by
      rw [writesFrom_next m s t k (p.cursor s) n, Move.writes, hparts t, ← writesTo_append, ← writesTo_append,
        List.append_assoc]
    exact hlive.again hb.1 hws rfl (Function.update_self ..)

lemma Sound.step (turn : Turn S) : Sound m start changes goal (p.step m turn) := by
  cases turn with
  | flush s n =>
    have hb := h.bounds s
    refine @Sound.turn _ _ _ _ _ _ _ _ p _ h hr hdisjoint s n
      (fun t => kindsFor (m.next s (p.cursor s) n) t) (fun _ => []) ?_ ?_ ?_ ?_ ?_
    · intro s' hs
      exact ⟨rfl, Function.update_of_ne hs _ _⟩
    · simp only [Shadows.step, Function.update_self]
      omega
    · intro t
      rw [List.append_nil]
    · intro t table htable
      obtain ⟨kinds, rest, hparts, hwhole, hexec, hall⟩ := hr.sent s (p.cursor s) n
        (statementsFor m.shape (m.next s (p.cursor s) n) t).length t table
      rw [hall (Nat.le_refl _), List.append_nil] at hparts
      rw [List.take_length] at hexec
      refine ⟨hparts ▸ hwhole, ?_⟩
      simp only [Shadows.step, Shadows.send, htable, Option.bind_some, hexec, hparts]
    · intro t k goal row hlive
      exact hlive.flush hb.1 rfl (Function.update_self ..)
  | fail s n done => exact h.fail hr hdisjoint s n done
  | restart s =>
    -- a flush that fails before its first statement
    have hnone : p.send m (fun _ => []) = p.tables := funext fun t => by simp [Shadows.send, execAll]
    have hsame : p.step m (.restart s) = p.step m (.fail s 0 fun _ => 0) := by simp [Shadows.step, hnone]
    rw [hsame]
    exact h.fail hr hdisjoint s 0 _
  | advance s =>
    have hb := h.bounds s
    refine @Sound.turn _ _ _ _ _ _ _ _ p _ h hr hdisjoint s 0 (fun _ => []) (fun _ => []) ?_ ?_ ?_ ?_ ?_
    · intro s' hs
      exact ⟨Function.update_of_ne hs _ _, rfl⟩
    · simp only [Shadows.step, Function.update_self]
      omega
    · intro t
      rw [Move.next, List.take_zero]
      rfl
    · intro t table htable
      exact ⟨fun row hmem => absurd hmem List.not_mem_nil, htable⟩
    · intro t k goal row hlive
      exact hlive.advance hb.1 (Function.update_self ..) rfl

lemma Sound.run (turns : List (Turn S)) : Sound m start changes goal (p.run m turns) := by
  induction turns generalizing p with
  | nil => exact h
  | cons turn turns ih => exact ih (h.step hr hdisjoint turn)

end

/-! ### From the copies to the end -/

/-- Each shard holds the rows of the sources that the router places there. -/
def Copies (rt : PlacementRouter) (V : S → SourceTable K) (p : Shadows S K) : Prop :=
  ∀ t, ∃ table, p.tables t = some table ∧ ∀ k row, table k = some row ↔ ∃ s, V s k = some row ∧ rt.places row t = true

/-- The whole of the changes, replayed over a later state, leads where they lead from the start. -/
lemma Replayable.catches (h : Replayable m rt start changes) (s : S) (t : Int) (k : K) (n : Nat) :
    replay m.shape.keep (m.writesFrom s t k 0)
        (routed rt (sourceAfter m.shape m.keyOf (start s) ((changes s).take n)) t k) =
      routed rt (sourceAfter m.shape m.keyOf (start s) (changes s)) t k := by
  have hops := h.ops s
  have hfollows := h.follows s
  rw [← List.take_append_drop n (changes s)] at hops hfollows
  obtain ⟨first, rest, hfirst, -, hsplit⟩ := opsOf_append hops
  obtain ⟨hcleanFirst, hrunFirst⟩ := history_exact m.defaults hfollows.part hfirst t
  obtain ⟨hclean, hrun⟩ := history_exact m.defaults (h.follows s) (h.ops s) t
  rw [← hrunFirst, ← hrun, runOps_apply _ _ _ hcleanFirst.whole, runOps_apply _ _ _ hclean.whole,
    Move.writesFrom, List.drop_zero, hsplit, kindsFor_append, writesTo_append]
  exact replay_absorb m.shape.keep_keep _ _ _

section

variable {V : S → SourceTable K} {table : ShadowTable K} {s : S} {t : Int} {k : K}
  (htable : ∀ k row, table k = some row ↔ ∃ s, V s k = some row ∧ rt.places row t = true)

include htable

omit [DecidableEq K] in
/-- Only one source can have a row under the key, so the shard's row is that source's. -/
lemma copied_row (honly : ∀ s', V s' k ≠ none → s' = s) : table k = routed rt (V s) t k := by
  refine Option.ext fun row => ?_
  rw [htable, routed, Option.filter_eq_some_iff]
  constructor
  · rintro ⟨s', hrow, hplaced⟩
    obtain rfl := honly s' (by simp [hrow])
    exact ⟨hrow, hplaced⟩
  · rintro ⟨hrow, hplaced⟩
    exact ⟨s, hrow, hplaced⟩

omit [DecidableEq K] in
lemma copied_none (hnone : ∀ s', V s' k = none) : table k = none := by
  rw [Option.eq_none_iff_forall_ne_some]
  intro row hrow
  obtain ⟨s', hs', -⟩ := (htable k row).mp hrow
  rw [hnone s'] at hs'
  cases hs'

end

section

variable (hr : Replayable m rt start changes)
  (hdisjoint : ∀ s s' k, Uses m start changes s k → Uses m start changes s' k → s = s') {p : Shadows S K}

include hr hdisjoint

lemma Sound.first (hslot : ∀ s, p.slot s = 0) (hcursor : ∀ s, p.cursor s = 0) {snapshot : S → Nat}
    (hcopy : Copies rt (fun s => sourceAfter m.shape m.keyOf (start s) ((changes s).take (snapshot s))) p) :
    Sound m start changes (fun s t => routed rt (sourceAfter m.shape m.keyOf (start s) (changes s)) t) p := by
  constructor
  · intro s
    rw [hslot, hcursor]
    exact ⟨.refl, Nat.zero_le _⟩
  · intro t
    obtain ⟨table, htable, hrows⟩ := hcopy t
    refine ⟨table, htable, ?_, ?_⟩
    · intro s k huse
      have hrow := copied_row hrows fun s' hs' => hdisjoint s' s k ⟨snapshot s', hs'⟩ huse
      refine ⟨table k, ?_, ?_⟩
      · rw [hslot, hcursor]
        rfl
      · rw [hslot, hrow]
        exact hr.catches s t k (snapshot s)
    · intro k hnone
      refine copied_none hrows fun s' => ?_
      by_contra hne
      exact hnone s' ⟨snapshot s', hne⟩

/-- Once every source has applied all its operations, whatever was cut short and done again, each shard
holds the rows the router places there, and no others. -/
theorem replay_converges [DecidableEq S] (snapshot : S → Nat) (hslot : ∀ s, p.slot s = 0) (hcursor : ∀ s, p.cursor s = 0)
    (hcopy : Copies rt (fun s => sourceAfter m.shape m.keyOf (start s) ((changes s).take (snapshot s))) p)
    (turns : List (Turn S)) (hend : ∀ s, (p.run m turns).cursor s = (m.ops s).length) :
    Copies rt (fun s => sourceAfter m.shape m.keyOf (start s) (changes s)) (p.run m turns) := by
  have hsound := (Sound.first hr hdisjoint hslot hcursor hcopy).run hr hdisjoint turns
  intro t
  obtain ⟨table, htable, hused, hunused⟩ := hsound.tables t
  refine ⟨table, htable, ?_⟩
  intro k row
  by_cases huse : ∃ s, Uses m start changes s k
  · obtain ⟨s, hs⟩ := huse
    rw [(hused s k hs).arrived (hend s), routed, Option.filter_eq_some_iff]
    constructor
    · exact fun h => ⟨s, h⟩
    · rintro ⟨s', hrow, hplaced⟩
      have hs' : Uses m start changes s' k := ⟨(changes s').length, by simp [hrow]⟩
      obtain rfl := hdisjoint s' s k hs' hs
      exact ⟨hrow, hplaced⟩
  · have hno := not_exists.mp huse
    rw [hunused k hno]
    constructor
    · rintro ⟨⟩
    · rintro ⟨s, hrow, -⟩
      exact absurd ⟨(changes s).length, by simp [hrow]⟩ (hno s)

end

end

section

/-- A table of an identity column `id` and its shard key `owner`. -/
def ledgerShape : RowShape where
  columns := ["id", "owner"]
  identity := ["a", ""]
  pk := ["id"]
  distinct := by decide
  pk_columns := by decide

/-- Two shards, by the integer `owner`. -/
def ledgerRouter : PlacementRouter := ⟨.sharded, 0, [1, 2], [⟨-2 ^ 63, -1, 1⟩, ⟨0, 2 ^ 63 - 1, 2⟩], 1, "bigint"⟩

def ledgerRow (id owner : UInt8) : Tuple := ⟨[some [id], some [owner]], [false, false]⟩

/-- A row is inserted on the first shard and moves to the second. -/
def ledgerChanges : List Change := [.insert (ledgerRow 49 48), .update (some (ledgerRow 49 48)) (ledgerRow 49 49)]

def ledgerMove : Move Unit (List (Option Bytes)) where
  shape := ledgerShape
  keyOf := id
  defaults := [none, none]
  ops := fun _ => [⟨1, .up (ledgerRow 49 48)⟩, ⟨1, .del (ledgerRow 49 48)⟩, ⟨2, .up (ledgerRow 49 49)⟩]

/-- The copy was made between the two changes. -/
def ledgerShadows : Shadows Unit (List (Option Bytes)) where
  tables := fun t => some (Function.update (fun _ => none) [some [49]]
    (if t = 1 then some (ledgerRow 49 48).values else none))

/-- The second shard has its statement and the first not; the second try is cut short too. -/
theorem replay_converges_moved : Copies ledgerRouter (fun _ => sourceAfter ledgerShape id (fun _ => none) ledgerChanges)
      (ledgerShadows.run ledgerMove [.fail () 3 (fun t => if t = 2 then 1 else 0), .flush () 2, .restart (),
        .flush () 1, .flush () 2, .advance ()]) := by
  have hone : sourceAfter ledgerShape id (fun _ => none) (ledgerChanges.take 1) =
      Function.update (fun _ => none) [some [49]] (some (ledgerRow 49 48).values) := rfl
  have hroute : ledgerRouter.route (ledgerRow 49 48).values = .ok [1] := by decide +kernel
  have hr : Replayable ledgerMove ledgerRouter (fun _ => fun _ => none) fun _ => ledgerChanges := by
    refine ⟨fun _ => ⟨⟨⟨rfl, rfl⟩, by decide, rfl⟩, ⟨⟨rfl, rfl⟩, ⟨rfl, rfl⟩, rfl, .inl rfl⟩, trivial⟩, fun _ => ?_⟩
    change opsOf ledgerRouter ledgerShape ledgerChanges = .ok (ledgerMove.ops ())
    decide +kernel
  refine replay_converges hr (fun _ _ _ _ _ => rfl) (fun _ => 1) (fun _ => rfl) (fun _ => rfl) ?_ _ ?_
  · intro t
    refine ⟨_, rfl, ?_⟩
    intro k row
    rw [exists_const]
    change _ ↔ sourceAfter ledgerShape id (fun _ => none) (ledgerChanges.take 1) k = some row ∧ _
    rw [hone]
    by_cases hk : k = [some [49]]
    · subst hk
      by_cases ht : t = 1
      · simp only [ht, if_true, Function.update_self, Option.some.injEq]
        refine ⟨?_, fun h => h.1⟩
        rintro rfl
        exact ⟨rfl, by simp [PlacementRouter.places, hroute]⟩
      · simp only [ht, if_false, Function.update_self, Option.some.injEq, reduceCtorEq, false_iff]
        rintro ⟨rfl, hplaced⟩
        simp [PlacementRouter.places, hroute, ht] at hplaced
    · simp [Function.update_of_ne hk]
  · intro s
    rfl

end

end PgShard.Placer
