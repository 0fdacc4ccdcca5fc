import PgShard.Placer.Apply

/-!
# A change, replayed from where it was made

A source's change takes the routed table of one state of the source to that of the next, when its
operations are applied to exactly that table.
-/

namespace PgShard.Placer

open Key Replay

variable {K : Type*} [DecidableEq K] (rt : PlacementRouter) (shape : RowShape)
  (keyOf : List (Option Bytes) → K) (defaults : List (Option Bytes))

/-- The rows of a source by the value of their primary key. -/
abbrev SourceTable (K : Type*) := K → Option (List (Option Bytes))

/-- The rows of a change are as wide as the table; an insert sends every column, and the old row is
complete. -/
def RowShape.fits (s : RowShape) (t : Tuple) : Prop :=
  t.values.length = s.columns.length ∧ t.unchanged.length = s.columns.length

/-- A change the source can make, with the full old row. -/
def Change.possible (V : SourceTable K) : Change → Prop
  | .insert new => shape.fits new ∧ true ∉ new.unchanged ∧ V (new.key shape keyOf) = none
  | .delete old => shape.fits old ∧ V (old.key shape keyOf) = some old.values
  | .update (some old) new => shape.fits old ∧ shape.fits new ∧ V (old.key shape keyOf) = some old.values ∧
      ((filled (some old) new).key shape keyOf = old.key shape keyOf ∨
        V ((filled (some old) new).key shape keyOf) = none)
  | .update none _ => False

def Change.apply (V : SourceTable K) : Change → SourceTable K
  | .insert new => Function.update V (new.key shape keyOf) (some new.values)
  | .delete old => Function.update V (old.key shape keyOf) none
  | .update old new =>
    let new := filled old new
    Function.update (Function.update V ((old.getD new).key shape keyOf) none) (new.key shape keyOf) (some new.values)

/-- The changes follow one another. -/
def Follows (V : SourceTable K) : List Change → Prop
  | [] => True
  | c :: cs => c.possible shape keyOf V ∧ Follows (c.apply shape keyOf V) cs

def sourceAfter (V : SourceTable K) (cs : List Change) : SourceTable K := cs.foldl (fun V c => c.apply shape keyOf V) V

/-- The router assigns the row to the shard. -/
def PlacementRouter.places (row : List (Option Bytes)) (shard : Int) : Bool :=
  match rt.route row with
  | .ok targets => targets.contains shard
  | .error _ => false

/-- What a shard holds of a source. -/
def routed (V : SourceTable K) (shard : Int) : ShadowTable K := fun k => (V k).filter (rt.places · shard)

/-- The write of an operation to the row with one key. -/
def OpKind.writeTo (k : K) : OpKind → Option (Write (List (Option Bytes)))
  | .up row => if row.key shape keyOf = k then some (.put row.values) else none
  | .del row => if row.key shape keyOf = k then some .drop else none
  | .sql _ => none

def writesTo (k : K) (ops : List OpKind) : List (Write (List (Option Bytes))) :=
  ops.filterMap (OpKind.writeTo shape keyOf k)

lemma writesTo_append (k : K) (ops ops' : List OpKind) :
    writesTo shape keyOf k (ops ++ ops') = writesTo shape keyOf k ops ++ writesTo shape keyOf k ops' :=
  List.filterMap_append

/-- Every row of an operation carries all its columns. -/
def Whole (ops : List OpKind) : Prop := ∀ row, OpKind.sql row ∉ ops

lemma runOps_apply {ops : List OpKind} (hwhole : Whole ops) (table : ShadowTable K) (k : K) :
    runOps shape keyOf defaults table ops k = replay shape.keep (writesTo shape keyOf k ops) (table k) := by
  induction ops generalizing table with
  | nil => rfl
  | cons op ops ih =>
    have hrest : Whole ops := fun row hmem => hwhole row (.tail _ hmem)
    have hstep : runOps shape keyOf defaults table (op :: ops) =
        runOps shape keyOf defaults (op.run shape keyOf defaults table) ops := rfl
    rw [hstep, ih hrest]
    cases op with
    | up row =>
      by_cases hk : row.key shape keyOf = k
      · subst hk
        simp [OpKind.run, putRow, writesTo, OpKind.writeTo]
      · simp [OpKind.run, putRow, writesTo, OpKind.writeTo, hk, Function.update_of_ne (Ne.symm hk)]
    | del row =>
      by_cases hk : row.key shape keyOf = k
      · subst hk
        simp [OpKind.run, dropRow, writesTo, OpKind.writeTo, Write.run]
      · simp [OpKind.run, dropRow, writesTo, OpKind.writeTo, hk, Function.update_of_ne (Ne.symm hk)]
    | sql row => exact absurd List.mem_cons_self (hwhole row)

/-! ### Upserts that find their own key -/

/-- An upsert that finds a row finds one with the texts of its own key. -/
def Clean : ShadowTable K → List OpKind → Prop
  | _, [] => True
  | table, .up row :: ops =>
    (∀ old, table (row.key shape keyOf) = some old → shape.pkKey old = shape.pkKey row.values) ∧
      Clean (putRow shape keyOf table row) ops
  | table, .del row :: ops => Clean (dropRow shape keyOf table row) ops
  | _, .sql _ :: _ => False

lemma clean_append (table : ShadowTable K) (ops ops' : List OpKind) : Clean shape keyOf table (ops ++ ops') ↔
      Clean shape keyOf table ops ∧ Clean shape keyOf (runOps shape keyOf defaults table ops) ops' := by
  induction ops generalizing table with
  | nil => simp [Clean, runOps]
  | cons op ops ih =>
    cases op with
    | up row =>
      simp only [List.cons_append, Clean, ih, and_assoc]
      rfl
    | del row =>
      simp only [List.cons_append, Clean, ih]
      rfl
    | sql row => simp [Clean]

variable {shape keyOf} in
lemma Clean.whole {table : ShadowTable K} {ops : List OpKind} (h : Clean shape keyOf table ops) : Whole ops := by
  induction ops generalizing table with
  | nil => exact fun row hmem => absurd hmem List.not_mem_nil
  | cons op ops ih =>
    intro row hmem
    cases op with
    | up r => exact ih h.2 row (by simpa using hmem)
    | del r => exact ih h row (by simpa using hmem)
    | sql r => exact h

lemma RowShape.pkKey_keep (s : RowShape) (o r : List (Option Bytes)) : s.pkKey (s.keep o r) = s.pkKey o := by
  refine List.map_congr_left fun i hi => ?_
  obtain ⟨k, hk, rfl⟩ := List.mem_map.mp hi
  have hlt := List.idxOf_lt_length_of_mem (s.pk_columns k hk)
  simp [keep, kept, hlt, hk]

/-- A row that is there keeps the texts of its key until it is deleted. -/
lemma held {ops : List OpKind} (hwhole : Whole ops) {table : ShadowTable K} {k : K}
    {old : List (Option Bytes)} (hold : table k = some old) (hdel : ∀ d, .del d ∈ ops → d.key shape keyOf ≠ k) :
    ∃ new, runOps shape keyOf defaults table ops k = some new ∧ shape.pkKey new = shape.pkKey old := by
  induction ops generalizing table old with
  | nil => exact ⟨old, hold, rfl⟩
  | cons op ops ih =>
    have hrest : Whole ops := fun row hmem => hwhole row (.tail _ hmem)
    have hdels : ∀ d, .del d ∈ ops → d.key shape keyOf ≠ k := fun d hmem => hdel d (.tail _ hmem)
    cases op with
    | up row =>
      by_cases hk : row.key shape keyOf = k
      · subst hk
        have hput : putRow shape keyOf table row (row.key shape keyOf) = some (shape.keep old row.values) := by
          simp [putRow, hold, Write.run]
        obtain ⟨new, hnew, hkey⟩ := ih hrest hput hdels
        exact ⟨new, hnew, hkey.trans (shape.pkKey_keep _ _)⟩
      · refine ih hrest ?_ hdels
        simpa [OpKind.run, putRow, Function.update_of_ne (Ne.symm hk)] using hold
    | del row =>
      refine ih hrest ?_ hdels
      have hk := hdel row List.mem_cons_self
      simpa [OpKind.run, dropRow, Function.update_of_ne (Ne.symm hk)] using hold
    | sql row => exact absurd List.mem_cons_self (hwhole row)

variable {shape keyOf} in
lemma Clean.steady {table : ShadowTable K} {ops : List OpKind} (h : Clean shape keyOf table ops) :
    Steady shape keyOf ops := by
  intro before a between b after hops hkey
  by_contra hno
  obtain ⟨htexts, hdels⟩ := not_or.mp hno
  -- from the first upsert on, the row is there with the first text
  rw [hops, List.append_assoc, clean_append shape keyOf []] at h
  obtain ⟨-, ha, hrest⟩ := h
  generalize htable : runOps shape keyOf [] table before = mid at ha hrest
  have hput : ∃ old, putRow shape keyOf mid a (a.key shape keyOf) = some old ∧
      shape.pkKey old = shape.pkKey a.values := by
    refine ⟨shape.keep ((mid (a.key shape keyOf)).getD a.values) a.values, ?_, ?_⟩
    · simp [putRow, Write.run]
    · rw [shape.pkKey_keep]
      cases hmid : mid (a.key shape keyOf) with
      | none => rfl
      | some old => exact ha old hmid
  obtain ⟨old, hold, holdKey⟩ := hput
  obtain ⟨hbetween, hb, -⟩ := (clean_append shape keyOf [] _ between (.up b :: after)).mp hrest
  obtain ⟨new, hnew, hnewKey⟩ := held shape keyOf [] hbetween.whole hold fun d hd hdk => hdels ⟨d, hd, hdk⟩
  refine htexts ?_
  rw [← holdKey, ← hnewKey]
  exact hb new (hkey ▸ hnew)

/-- On this table the operations find their own keys, and they lead to that one. -/
def Takes (table : ShadowTable K) (ops : List OpKind) (table' : ShadowTable K) : Prop :=
  Clean shape keyOf table ops ∧ runOps shape keyOf defaults table ops = table'

variable {shape keyOf defaults} in
lemma Takes.append {table table' table'' : ShadowTable K} {ops ops' : List OpKind}
    (h : Takes shape keyOf defaults table ops table') (h' : Takes shape keyOf defaults table' ops' table'') :
    Takes shape keyOf defaults table (ops ++ ops') table'' := by
  obtain ⟨hclean, rfl⟩ := h
  rw [Takes, clean_append shape keyOf defaults, runOps_append]
  exact ⟨⟨hclean, h'.1⟩, h'.2⟩

lemma kindsFor_flatMap (targets : List Int) (f : Int → List OpKind) (t : Int) :
    kindsFor (targets.flatMap fun u => (f u).map (ApplyOp.mk u)) t =
      (List.replicate (targets.count t) (f t)).flatten := by
  induction targets with
  | nil => rfl
  | cons u targets ih =>
    have hone : kindsFor ((f u).map (ApplyOp.mk u)) t = if u = t then f t else [] := by
      by_cases hu : u = t
      · subst hu
        simp [kindsFor, List.filter_map, Function.comp_def]
      · simp [kindsFor, List.filter_map, Function.comp_def, hu]
    have happend : kindsFor ((u :: targets).flatMap fun u => (f u).map (ApplyOp.mk u)) t =
        kindsFor ((f u).map (ApplyOp.mk u)) t ++
          kindsFor (targets.flatMap fun u => (f u).map (ApplyOp.mk u)) t := by
      simp [kindsFor]
    rw [happend, hone, ih]
    by_cases hu : u = t
    · subst hu
      simp [List.replicate_succ]
    · simp [hu]

lemma kindsFor_append (ops ops' : List ApplyOp) (t : Int) :
    kindsFor (ops ++ ops') t = kindsFor ops t ++ kindsFor ops' t := by simp [kindsFor]

variable {shape} in
lemma RowShape.keep_self {row : List (Option Bytes)} (h : row.length = shape.columns.length) :
    shape.keep row row = row := by
  refine List.ext_getElem (by simp [keep, h]) fun i hi hi' => ?_
  simp [keep, hi']

variable {shape} in
/-- An upsert that changes nothing it cannot set leaves the new row. -/
lemma RowShape.keep_same {old new : Tuple} (hnew : new.values.length = shape.columns.length)
    (hold : old.values.length = shape.columns.length) (hpk : samePK shape old new = true)
    (hidentity : shape.alwaysIdentityChanged (some old) new = false) :
    shape.keep old.values new.values = new.values := by
  refine List.ext_getElem (by simp [keep, hnew]) fun i hi hi' => ?_
  have hlt : i < shape.columns.length := hnew ▸ hi'
  by_cases hk : shape.kept i = true
  · have hsame : old.values.getD i none = new.values.getD i none := by
      by_cases hpkc : shape.columns[i] ∈ shape.pk
      · have hidx : i ∈ shape.pkIndexes := by
          refine List.mem_map.mpr ⟨shape.columns[i], hpkc, ?_⟩
          exact List.Nodup.idxOf_getElem shape.distinct i hlt
        exact List.map_inj_left.mp (of_decide_eq_true hpk) i hidx
      · have hidentityAlways : shape.identityAlways i = true := by
          simpa [kept, hlt, hpkc] using hk
        by_contra hne
        have hchanged : shape.alwaysIdentityChanged (some old) new = true := by
          simp only [RowShape.alwaysIdentityChanged, List.any_eq_true]
          refine ⟨(shape.columns[i], i), ?_, ?_⟩
          · exact List.mem_zipIdx_iff_getElem?.mpr (by simp [hlt])
          · have hlto : i < old.values.length := hold ▸ hlt
            simp only [hidentityAlways, Bool.true_and, List.getElem?_eq_getElem hlto, List.getElem?_eq_getElem hi']
            simp only [List.getD_eq_getElem?_getD, List.getElem?_eq_getElem hlto,
              List.getElem?_eq_getElem hi', Option.getD_some] at hne
            simp [hne, hpkc]
        rw [hchanged] at hidentity
        cases hidentity
    simp only [List.getD_eq_getElem?_getD, List.getElem?_eq_getElem hi', Option.getD_some] at hsame
    simp [keep, hk, hsame]
  · simp [keep, hk, hi']

section

variable {rt shape keyOf} {V : SourceTable K} {t : Int}

lemma routed_update (k : K) (row : Option (List (Option Bytes))) : routed rt (Function.update V k row) t =
      Function.update (routed rt V t) k (row.filter (rt.places · t)) := by
  funext j
  by_cases hj : j = k
  · subst hj
    simp [routed]
  · simp [routed, Function.update_of_ne hj]

omit [DecidableEq K] in
lemma routed_none {k : K} (h : V k = none) : routed rt V t k = none := by simp [routed, h]

lemma places_eq {row : List (Option Bytes)} {targets : List Int} (h : rt.route row = .ok targets) :
    rt.places row t = targets.contains t := by
  simp [PlacementRouter.places, h]

/-- The shards an old row is sought on. -/
def PlacementRouter.soughtOn (rt : PlacementRouter) (row : List (Option Bytes)) : List Int :=
  (rt.route row).toOption.getD rt.holders

/-- A shard the old row is not sought on does not hold it. -/
lemma places_of_not_sought {row : List (Option Bytes)} (ht : t ∉ rt.soughtOn row) : rt.places row t = false := by
  cases hroute : rt.route row with
  | error e => simp [PlacementRouter.places, hroute]
  | ok targets =>
    rw [PlacementRouter.soughtOn, hroute] at ht
    have hnot : t ∉ targets := ht
    simpa [PlacementRouter.places, hroute] using hnot

omit [DecidableEq K] in
lemma routed_away {k : K} {old : List (Option Bytes)} (h : V k = some old)
    (ht : t ∉ rt.soughtOn old) : routed rt V t k = none := by
  simp [routed, h, places_of_not_sought ht]

/-- An upsert that finds nothing, or a row it leaves nothing of. -/
lemma put_exact {table : ShadowTable K} {new : Tuple} (hfits : shape.fits new)
    (h : table (new.key shape keyOf) = none ∨ ∃ old, table (new.key shape keyOf) = some old ∧
      shape.keep old new.values = new.values) : Takes shape keyOf defaults table [.up new]
      (Function.update table (new.key shape keyOf) (some new.values)) := by
  have hrun : runOps shape keyOf defaults table [.up new] = putRow shape keyOf table new := rfl
  rw [Takes, hrun, putRow]
  rcases h with h | ⟨old, h, hkeep⟩
  · refine ⟨⟨by simp [h], trivial⟩, ?_⟩
    simp [h, Write.run, RowShape.keep_self hfits.1]
  · refine ⟨⟨?_, trivial⟩, by simp [h, Write.run, hkeep]⟩
    intro found hfound
    obtain rfl : found = old := by simpa [h] using hfound.symm
    rw [← shape.pkKey_keep found new.values, hkeep]

variable {old new : Tuple} {ops : List ApplyOp}

lemma put_again {table : ShadowTable K} (hfits : shape.fits new) :
    Takes shape keyOf defaults (Function.update table (new.key shape keyOf) (some new.values)) [.up new]
      (Function.update table (new.key shape keyOf) (some new.values)) := by
  have hexact := put_exact defaults hfits
    (.inr ⟨new.values, Function.update_self (new.key shape keyOf) _ table, RowShape.keep_self hfits.1⟩)
  rwa [Function.update_idem] at hexact

/-- What a change does to one shard: nothing, or one block over and over, which does its work once. -/
lemma exact_of_block {block : List OpKind} {table table' : ShadowTable K} {n : Nat}
    (hnone : n = 0 → table = table') (hsome : 0 < n → Takes shape keyOf defaults table block table')
    (hagain : 0 < n → Takes shape keyOf defaults table' block table') :
    Takes shape keyOf defaults table (List.replicate n block).flatten table' := by
  cases n with
  | zero => exact ⟨trivial, hnone rfl⟩
  | succ n =>
    have hpos : 0 < n + 1 := by omega
    have hmore : ∀ m, Takes shape keyOf defaults table' (List.replicate m block).flatten table' := by
      intro m
      induction m with
      | zero => exact ⟨trivial, rfl⟩
      | succ m ih => exact (hagain hpos).append ih
    exact (hsome hpos).append (hmore n)

lemma upsertOps_whole (h : true ∉ new.unchanged) (u : Int) :
    upsertOps u new = [OpKind.up new].map (ApplyOp.mk u) := by
  simp [upsertOps, h]

lemma insert_exact (hp : (Change.insert new).possible shape keyOf V)
    (hops : routeChange rt shape (.insert new) = .ok ops) (t : Int) :
    Takes shape keyOf defaults (routed rt V t) (kindsFor ops t)
      (routed rt ((Change.insert new).apply shape keyOf V) t) := by
  obtain ⟨hfits, hwhole, habsent⟩ := hp
  simp only [routeChange] at hops
  split at hops
  · cases hops
  rename_i targets hroute
  cases hops
  simp only [upsertOps_whole hwhole]
  rw [kindsFor_flatMap targets fun _ => [.up new]]
  have hbefore : routed rt V t (new.key shape keyOf) = none := routed_none habsent
  simp only [Change.apply, routed_update, Option.filter_some, places_eq hroute]
  refine exact_of_block defaults ?_ ?_ ?_
  · intro hzero
    have hnot : t ∉ targets := List.count_eq_zero.mp hzero
    simp [hnot, ← hbefore]
  · intro hpos
    have ht : t ∈ targets := List.count_pos_iff.mp hpos
    simpa [ht] using put_exact defaults hfits (.inl hbefore)
  · intro hpos
    have ht : t ∈ targets := List.count_pos_iff.mp hpos
    simpa [ht] using put_again defaults hfits

lemma delete_exact (hp : (Change.delete old).possible shape keyOf V)
    (hops : routeChange rt shape (.delete old) = .ok ops) (t : Int) :
    Takes shape keyOf defaults (routed rt V t) (kindsFor ops t)
      (routed rt ((Change.delete old).apply shape keyOf V) t) := by
  obtain ⟨-, hthere⟩ := hp
  cases hops
  have hmap : ((rt.soughtOn old.values).map fun t => ApplyOp.mk t (.del old)) =
      (rt.soughtOn old.values).flatMap fun u => [OpKind.del old].map (ApplyOp.mk u) :=
    List.map_eq_flatMap
  change Takes _ _ _ _ (kindsFor ((rt.soughtOn old.values).map _) t) _
  rw [hmap, kindsFor_flatMap _ fun _ => [.del old]]
  simp only [Change.apply, routed_update, Option.filter_none]
  refine exact_of_block defaults ?_ (fun _ => ⟨trivial, rfl⟩) fun _ => ⟨trivial, ?_⟩
  · intro hzero
    have haway := routed_away hthere (List.count_eq_zero.mp hzero)
    simp [← haway]
  · exact Function.update_idem ..

lemma fits_filled {old new : Tuple} (hnew : shape.fits new) : shape.fits (filled (some old) new) := by
  simpa [RowShape.fits, filled] using hnew

lemma whole_filled (old new : Tuple) : true ∉ (filled (some old) new).unchanged := by simp [filled]

omit [DecidableEq K] in
lemma key_of_samePK {a b : Tuple} (h : samePK shape a b = true) : a.key shape keyOf = b.key shape keyOf :=
  congrArg keyOf (of_decide_eq_true h)

/-- An update on a shard the new row goes to, without a delete before. -/
lemma update_put (hold : shape.fits old) (hnew : shape.fits new) (hthere : V (old.key shape keyOf) = some old.values)
    (hfree : new.key shape keyOf = old.key shape keyOf ∨ V (new.key shape keyOf) = none)
    (hstays : t ∈ rt.soughtOn old.values → samePK shape old new = true ∧ shape.alwaysIdentityChanged (some old) new = false) :
    Takes shape keyOf defaults (routed rt V t) [.up new]
      (Function.update (Function.update (routed rt V t) (old.key shape keyOf) none) (new.key shape keyOf) (some new.values)) := by
  by_cases ht : t ∈ rt.soughtOn old.values
  · obtain ⟨hpk, hidentity⟩ := hstays ht
    have hkey : old.key shape keyOf = new.key shape keyOf := key_of_samePK hpk
    rw [hkey, Function.update_idem]
    refine put_exact defaults hnew ?_
    rw [← hkey]
    by_cases hplaced : rt.places old.values t = true
    · exact .inr ⟨old.values, by simp [routed, hthere, hplaced], RowShape.keep_same hnew.1 hold.1 hpk hidentity⟩
    · exact .inl (by simp [routed, hthere, hplaced])
  · have haway : routed rt V t (old.key shape keyOf) = none := routed_away hthere ht
    have hsame : Function.update (routed rt V t) (old.key shape keyOf) none = routed rt V t := by
      rw [← haway, Function.update_eq_self]
    rw [hsame]
    refine put_exact defaults hnew (.inl ?_)
    rcases hfree with hkey | hnone
    · rw [hkey, haway]
    · exact routed_none hnone

/-- An update on a shard that holds the old row, replaced by the new one. -/
lemma update_replace {old new : Tuple} (hnew : shape.fits new) {table : ShadowTable K}
    (h : Function.update table (old.key shape keyOf) none (new.key shape keyOf) = none ∨
      Function.update table (old.key shape keyOf) none (new.key shape keyOf) = some new.values) :
    Takes shape keyOf defaults table [.del old, .up new]
      (Function.update (Function.update table (old.key shape keyOf) none) (new.key shape keyOf) (some new.values)) := by
  exact @put_exact _ _ shape keyOf defaults (Function.update table (old.key shape keyOf) none) new hnew
    (h.imp id fun hsome => ⟨new.values, hsome, RowShape.keep_self hnew.1⟩)

/-- What an update sends a target the new row goes to. -/
def updateBlock (sought : List Int) (replace : Bool) (old new : Tuple) (t : Int) : List OpKind :=
  (if replace && sought.contains t then [.del old] else []) ++ [.up new]

/-- The operations of an update, target by target. -/
lemma update_kinds (sought newTargets : List Int) (replace : Bool) (old new : Tuple) (t : Int) :
    kindsFor ((sought.filter (!newTargets.contains ·)).map (fun u => ApplyOp.mk u (.del old)) ++
        newTargets.flatMap fun u => (if replace && sought.contains u then [ApplyOp.mk u (.del old)] else []) ++
          [OpKind.up new].map (ApplyOp.mk u)) t =
      if t ∈ newTargets then
        (List.replicate (newTargets.count t) (updateBlock sought replace old new t)).flatten
      else (List.replicate (sought.count t) [.del old]).flatten := by
  have hdels : ((sought.filter (!newTargets.contains ·)).map fun u => ApplyOp.mk u (.del old)) =
      (sought.filter (!newTargets.contains ·)).flatMap fun u => [OpKind.del old].map (ApplyOp.mk u) :=
    List.map_eq_flatMap
  have hblocks : (fun u => (if replace && sought.contains u then [ApplyOp.mk u (.del old)] else []) ++
      [OpKind.up new].map (ApplyOp.mk u)) = fun u =>
        (updateBlock sought replace old new u).map (ApplyOp.mk u) := by
    funext u
    rw [updateBlock]
    split <;> rfl
  rw [hdels, hblocks, kindsFor_append, kindsFor_flatMap _ fun _ => [.del old],
    kindsFor_flatMap newTargets (updateBlock sought replace old new)]
  by_cases ht : t ∈ newTargets
  · have hzero : (sought.filter (!newTargets.contains ·)).count t = 0 :=
      List.count_eq_zero.mpr fun hmem => by simp [ht] at hmem
    rw [if_pos ht, hzero]
    simp
  · have hcount : (sought.filter (!newTargets.contains ·)).count t = sought.count t :=
      List.count_filter (by simpa using ht)
    have hzero : newTargets.count t = 0 := List.count_eq_zero.mpr ht
    rw [if_neg ht, hcount, hzero]
    simp

lemma update_twice (table : ShadowTable K) (k j : K) (row : Option (List (Option Bytes))) :
    Function.update (Function.update (Function.update (Function.update table k none) j row) k none) j row =
      Function.update (Function.update table k none) j row := by
  funext l
  by_cases hj : l = j
  · simp [hj]
  · by_cases hk : l = k
    · subst hk
      simp [Function.update_of_ne hj]
    · simp [Function.update_of_ne hj, Function.update_of_ne hk]

/-- The new key is free once the old row is gone. -/
lemma routed_free {k j : K} (hfree : j = k ∨ V j = none) : Function.update (routed rt V t) k none j = none := by
  rcases hfree with rfl | hnone
  · exact Function.update_self ..
  · by_cases hj : j = k
    · rw [hj, Function.update_self]
    · rw [Function.update_of_ne hj]
      exact routed_none hnone

lemma update_exact (hp : (Change.update (some old) new).possible shape keyOf V)
    (hops : routeChange rt shape (.update (some old) new) = .ok ops) (t : Int) :
    Takes shape keyOf defaults (routed rt V t) (kindsFor ops t)
      (routed rt ((Change.update (some old) new).apply shape keyOf V) t) := by
  obtain ⟨hold, hnew, hthere, hfree⟩ := hp
  replace hnew := @fits_filled shape old new hnew
  have hwhole := whole_filled old new
  simp only [routeChange, Change.apply, Option.getD_some] at hops ⊢
  generalize filled (some old) new = new at *
  split at hops
  · cases hops
  rename_i newTargets hroute
  have hkinds : kindsFor ops t = if t ∈ newTargets then
        (List.replicate (newTargets.count t) (updateBlock (rt.soughtOn old.values)
          (!samePK shape old new || shape.alwaysIdentityChanged (some old) new) old new t)).flatten
      else (List.replicate ((rt.soughtOn old.values).count t) [.del old]).flatten := by
    cases hops
    simp only [upsertOps_whole hwhole]
    exact update_kinds ..
  simp only [hkinds, routed_update, Option.filter_none, Option.filter_some, places_eq hroute]
  by_cases ht : t ∈ newTargets
  · rw [if_pos ht, if_pos (by simpa using ht)]
    have hpos : newTargets.count t ≠ 0 := fun hzero => List.count_eq_zero.mp hzero ht
    unfold updateBlock
    split
    · rename_i hreplace
      refine exact_of_block defaults (fun hzero => absurd hzero hpos) (fun _ => ?_) fun _ => ?_
      · exact update_replace defaults hnew (.inl (routed_free hfree))
      · have hagain := @update_replace _ _ shape keyOf defaults old new hnew
          (Function.update (Function.update (routed rt V t) (old.key shape keyOf) none)
            (new.key shape keyOf) (some new.values)) ?_
        · rwa [update_twice] at hagain
        · by_cases hkey : new.key shape keyOf = old.key shape keyOf
          · exact .inl (by rw [hkey, Function.update_self])
          · exact .inr (by rw [Function.update_of_ne hkey, Function.update_self])
    · rename_i hreplace
      refine exact_of_block defaults (fun hzero => absurd hzero hpos) (fun _ => ?_) fun _ => ?_
      · refine update_put defaults hold hnew hthere hfree fun hsought => ?_
        simpa [hsought] using hreplace
      · exact put_again defaults hnew
  · rw [if_neg ht, if_neg (by simpa using ht)]
    have hgone : Function.update (Function.update (routed rt V t) (old.key shape keyOf) none)
        (new.key shape keyOf) none = Function.update (routed rt V t) (old.key shape keyOf) none := by
      have hfree := @routed_free _ _ rt V t _ _ hfree
      nth_rewrite 2 [← hfree]
      exact Function.update_eq_self ..
    rw [hgone]
    refine exact_of_block defaults (fun hzero => ?_) (fun _ => ⟨trivial, rfl⟩) fun _ => ⟨trivial, ?_⟩
    · have haway := routed_away hthere (List.count_eq_zero.mp hzero)
      simp [← haway]
    · exact Function.update_idem ..

lemma change_exact {c : Change} (hp : c.possible shape keyOf V) (hops : routeChange rt shape c = .ok ops) (t : Int) :
    Takes shape keyOf defaults (routed rt V t) (kindsFor ops t)
      (routed rt (c.apply shape keyOf V) t) := by
  cases c with
  | insert new => exact insert_exact defaults hp hops t
  | delete old => exact delete_exact defaults hp hops t
  | update old new =>
    cases old with
    | none => exact absurd hp id
    | some old => exact update_exact defaults hp hops t

end

/-- The operations of a list of changes, in order. -/
def opsOf : List Change → Except RouteError (List ApplyOp)
  | [] => .ok []
  | c :: cs =>
    match routeChange rt shape c, opsOf cs with
    | .ok ops, .ok rest => .ok (ops ++ rest)
    | .error e, _ => .error e
    | _, .error e => .error e

section

variable {rt shape keyOf}

lemma opsOf_cons {c : Change} {cs : List Change} {ops : List ApplyOp} (h : opsOf rt shape (c :: cs) = .ok ops) :
    ∃ first rest, routeChange rt shape c = .ok first ∧ opsOf rt shape cs = .ok rest ∧ ops = first ++ rest := by
  simp only [opsOf] at h
  split at h
  · rename_i first rest hfirst hrest
    cases h
    exact ⟨first, rest, hfirst, hrest, rfl⟩
  · cases h
  · cases h

lemma opsOf_append {cs cs' : List Change} {ops : List ApplyOp} (h : opsOf rt shape (cs ++ cs') = .ok ops) :
    ∃ first rest, opsOf rt shape cs = .ok first ∧ opsOf rt shape cs' = .ok rest ∧ ops = first ++ rest := by
  induction cs generalizing ops with
  | nil => exact ⟨[], ops, rfl, h, rfl⟩
  | cons c cs ih =>
    obtain ⟨one, others, hone, hothers, rfl⟩ := opsOf_cons h
    obtain ⟨first, rest, hfirst, hrest, rfl⟩ := ih hothers
    exact ⟨one ++ first, rest, by simp [opsOf, hone, hfirst], hrest, by simp⟩

variable {c : Change} {cs : List Change} {ops : List ApplyOp} {k : K}

/-- Replayed from the state the changes start at, they lead where the source went. -/
lemma history_exact {V : SourceTable K} (hfollows : Follows shape keyOf V cs)
    (hops : opsOf rt shape cs = .ok ops) (t : Int) : Takes shape keyOf defaults (routed rt V t) (kindsFor ops t)
      (routed rt (sourceAfter shape keyOf V cs) t) := by
  induction cs generalizing V ops with
  | nil =>
    cases hops
    exact ⟨trivial, rfl⟩
  | cons c cs ih =>
    obtain ⟨first, rest, hfirst, hrest, rfl⟩ := opsOf_cons hops
    rw [kindsFor_append]
    exact (change_exact defaults hfollows.1 hfirst t).append (ih hfollows.2 hrest)

lemma Follows.part {cs' : List Change} {V : SourceTable K} (h : Follows shape keyOf V (cs ++ cs')) :
    Follows shape keyOf V cs := by
  induction cs generalizing V with
  | nil => trivial
  | cons c cs ih => exact ⟨h.1, ih h.2⟩

/-- The rows a change names: those under these keys. -/
def Change.keys (shape : RowShape) (keyOf : List (Option Bytes) → K) : Change → List K
  | .insert new => [new.key shape keyOf]
  | .delete old => [old.key shape keyOf]
  | .update old new => [((old.getD (filled old new)).key shape keyOf), (filled old new).key shape keyOf]

lemma writeTo_other {row : Tuple} (h : row.key shape keyOf ≠ k) (op : OpKind)
    (hop : op = .up row ∨ op = .del row ∨ op = .sql row) : op.writeTo shape keyOf k = none := by
  rcases hop with rfl | rfl | rfl <;> simp [OpKind.writeTo, h]

/-- A change writes only to the rows it names. -/
lemma routeChange_writes (hops : routeChange rt shape c = .ok ops) (hk : k ∉ c.keys shape keyOf)
    {op : ApplyOp} (hop : op ∈ ops) : op.kind.writeTo shape keyOf k = none := by
  have hups : ∀ t (row : Tuple), row.key shape keyOf ≠ k → op ∈ upsertOps t row →
      op.kind.writeTo shape keyOf k = none := by
    intro t row hrow hmem
    refine writeTo_other hrow op.kind ?_
    simp only [upsertOps] at hmem
    split at hmem <;> simp_all
  cases c with
  | insert new =>
    simp only [routeChange] at hops
    split at hops
    · cases hops
    cases hops
    obtain ⟨t, -, hmem⟩ := List.mem_flatMap.mp hop
    exact hups t new (fun heq => hk (by simp [Change.keys, heq])) hmem
  | delete old =>
    cases hops
    obtain ⟨t, -, rfl⟩ := List.mem_map.mp hop
    exact writeTo_other (fun heq => hk (by simp [Change.keys, heq])) _ (.inr (.inl rfl))
  | update old new =>
    have hold : (old.getD (filled old new)).key shape keyOf ≠ k := fun heq => hk (by simp [Change.keys, heq])
    have hnew : (filled old new).key shape keyOf ≠ k := fun heq => hk (by simp [Change.keys, heq])
    simp only [routeChange] at hops
    split at hops
    · cases hops
    cases hops
    rcases List.mem_append.mp hop with hmem | hmem
    · obtain ⟨t, -, rfl⟩ := List.mem_map.mp hmem
      exact writeTo_other hold _ (.inr (.inl rfl))
    · obtain ⟨t, -, hmem⟩ := List.mem_flatMap.mp hmem
      rcases List.mem_append.mp hmem with hmem | hmem
      · split at hmem
        · obtain rfl := List.mem_singleton.mp hmem
          exact writeTo_other hold _ (.inr (.inl rfl))
        · cases hmem
      · exact hups t _ hnew hmem

/-- The rows a possible change names are there before it or after it. -/
lemma named_there {V : SourceTable K} (hp : c.possible shape keyOf V) (hbefore : V k = none)
    (hafter : c.apply shape keyOf V k = none) : k ∉ c.keys shape keyOf := by
  cases c with
  | insert new =>
    simp only [Change.keys, List.mem_singleton]
    rintro rfl
    simp [Change.apply] at hafter
  | delete old =>
    simp only [Change.keys, List.mem_singleton]
    rintro rfl
    rw [hp.2] at hbefore
    cases hbefore
  | update old new =>
    cases old with
    | none => exact absurd hp id
    | some old =>
      simp only [Change.keys, List.mem_cons, List.not_mem_nil, or_false, not_or]
      constructor
      · rintro rfl
        rw [Option.getD_some, hp.2.2.1] at hbefore
        cases hbefore
      · rintro rfl
        simp [Change.apply] at hafter

/-- No operation of a source writes to a key the source never has. -/
lemma untouched {V : SourceTable K} (hfollows : Follows shape keyOf V cs) (hops : opsOf rt shape cs = .ok ops)
    (hnever : ∀ n, sourceAfter shape keyOf V (cs.take n) k = none) :
    ∀ op ∈ ops, op.kind.writeTo shape keyOf k = none := by
  induction cs generalizing V ops with
  | nil =>
    cases hops
    exact fun op hop => absurd hop List.not_mem_nil
  | cons c cs ih =>
    obtain ⟨first, rest, hfirst, hrest, rfl⟩ := opsOf_cons hops
    intro op hop
    rcases List.mem_append.mp hop with hmem | hmem
    · exact routeChange_writes hfirst (named_there hfollows.1 (hnever 0) (hnever 1)) hmem
    · exact ih hfollows.2 hrest (fun n => hnever (n + 1)) op hmem

end

end PgShard.Placer
