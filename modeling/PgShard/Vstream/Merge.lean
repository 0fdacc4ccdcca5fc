import PgShard.Vstream.Event

/-!
# The merger

The merger takes the units of all shards, one at a time, and sends each whole. Behind a unit that moves
a shard's position it sends the vector of all positions.
-/

namespace PgShard.Vstream

/-- The settings the order of the units depends on, times in microseconds. -/
structure Options where
  wallClockAlign : Bool
  skew : Int
  alignTimeout : Int

structure Merger where
  shards : List Shard
  opts : Options
  generation : Nat
  fingerprint : Nat
  position : Shard → Nat
  copying : List (Shard × CopyState)
  sentRel : String → String := fun _ => ""
  lastCommit : Shard → Option Int := fun _ => none
  heldSince : Shard → Option Int := fun _ => none
  heads : Shard → Option StreamUnit := fun _ => none
  next : Nat := 0

/-- The last commit times in summary: the least, whose it is, and the least of the others. -/
structure CommitFloors where
  least : Int := 0
  next : Int := 0
  holder : Option Shard := none
  seen : Nat := 0

namespace CommitFloors

def add (f : CommitFloors) (sh : Shard) (ts : Int) : CommitFloors :=
  if f.seen = 0 ∨ ts < f.least then ⟨ts, f.least, some sh, f.seen + 1⟩
  else if f.seen = 1 ∨ ts < f.next then { f with next := ts, seen := f.seen + 1 }
  else { f with seen := f.seen + 1 }

/-- The least commit time of the shards other than `self`. -/
def without (f : CommitFloors) (self : Shard) : Option Int :=
  if f.seen = 0 then none
  else if f.holder ≠ some self then some f.least
  else if f.seen = 1 then none
  else some f.next

/-- The second of the two times kept is not the smaller one. -/
def Ranked (f : CommitFloors) : Prop := 2 ≤ f.seen → f.least ≤ f.next

variable {f : CommitFloors} {sh : Shard} {ts : Int}

lemma ranked_add (h : f.Ranked) : (f.add sh ts).Ranked := by
  unfold Ranked add at *
  grind

/-- A shard that was not counted before lowers the floor of every shard but itself. -/
lemma add_without (h : f.Ranked) (hsh : f.holder ≠ some sh) (self : Shard) : (f.add sh ts).without self =
      if sh = self then f.without self else some ((f.without self).elim ts (min · ts)) := by
  unfold Ranked at h
  unfold add without
  split_ifs <;> grind

end CommitFloors

namespace Merger

variable (m : Merger)

/-- How far the shard's copy is, until it is over. -/
def copyOf (sh : Shard) : Option CopyState := (m.copying.find? (·.1 = sh)).map (·.2)

def vector : VPosition where
  generation := m.generation
  fingerprint := m.fingerprint
  shards := m.shards.filterMap fun sh => if 0 < m.position sh then some (sh, m.position sh) else none
  copyState := m.shards.filterMap m.copyOf

def commitFloors : CommitFloors :=
  m.shards.foldl (fun f sh => match m.lastCommit sh with
    | some ts => f.add sh ts
    | none => f) {}

lemma foldl_without {f : CommitFloors} (self : Shard) (times : Shard → Option Int) (h : f.Ranked)
    {shards : List Shard} (hnodup : shards.Nodup) (hnew : ∀ sh ∈ shards, f.holder ≠ some sh) :
    (shards.foldl (fun f sh => match times sh with
      | some ts => f.add sh ts
      | none => f) f).without self =
      ((f.without self).toList ++ (shards.filter (· ≠ self)).filterMap times).min? := by
  induction shards generalizing f with
  | nil =>
    rw [List.foldl_nil]
    cases f.without self <;> rfl
  | cons sh shards ih =>
    obtain ⟨hsh, hnodup⟩ := List.nodup_cons.mp hnodup
    rw [List.foldl_cons]
    cases hts : times sh with
    | none =>
      rw [ih h hnodup fun sh' hmem => hnew sh' (.tail _ hmem)]
      by_cases hself : sh = self <;> simp [hself, hts]
    | some ts =>
      rw [ih (CommitFloors.ranked_add h) hnodup, CommitFloors.add_without h (hnew sh (.head _))]
      · by_cases hself : sh = self
        · simp [hself]
        · have hmin : ∀ (floor : Option Int) l, ((some (floor.elim ts (min · ts))).toList ++ l).min? =
              (floor.toList ++ ts :: l).min? := by
            rintro (- | v) l <;> rfl
          rw [if_neg hself, hmin, List.filter_cons_of_pos (by simpa using hself), List.filterMap_cons_some hts]
      · intro sh' hmem
        unfold CommitFloors.add
        grind

/-- What a unit of `self` is held against is the least of the other shards' last commit times. -/
theorem commitFloors_without (m : Merger) (hshards : m.shards.Nodup) (self : Shard) :
    m.commitFloors.without self = ((m.shards.filter (· ≠ self)).filterMap m.lastCommit).min? :=
  foldl_without self m.lastCommit (by simp [CommitFloors.Ranked]) hshards (by simp)

/-- Two shards have the least time, and a third has none. -/
theorem commitFloors_without_tie :
    let m : Merger := {
      shards := [⟨"s", 0⟩, ⟨"s", 1⟩, ⟨"s", 2⟩], opts := ⟨true, 0, 0⟩, generation := 0, fingerprint := 0,
      position := fun _ => 0, copying := [], lastCommit := fun sh => if sh.id = 2 then none else some 5 }
    m.commitFloors.without ⟨"s", 0⟩ = some 5 :=
  (commitFloors_without _ (by decide) _).trans (by decide)

/-- The unit of a shard is taken. -/
def take (sh : Shard) : Merger :=
  { m with heads := Function.update m.heads sh none, heldSince := Function.update m.heldSince sh none }

/-- The shards in turn. -/
def roundRobin : Option StreamUnit × Merger :=
  let turn i := m.shards[(m.next + i) % m.shards.length]?
  match (List.range m.shards.length).find? fun i => (turn i).any fun sh => (m.heads sh).isSome with
  | none => (none, m)
  | some i =>
    match turn i with
    | none => (none, m)
    | some sh =>
      (m.heads sh, { m with
        next := (m.next + i + 1) % m.shards.length
        heads := Function.update m.heads sh none })

/-- The unit may go: it is not too far ahead of the others' last commits, or was held long enough. -/
def released (now : Int) (floors : CommitFloors) (sh : Shard) (u : StreamUnit) : Bool :=
  (floors.without sh).all (fun floor => u.commitTS ≤ floor + m.opts.skew) ||
    m.opts.alignTimeout - (now - (m.heldSince sh).getD now) ≤ 0

def hold (now : Int) (floors : CommitFloors) (sh : Shard) (u : StreamUnit) : Merger :=
  if (floors.without sh).all (fun floor => u.commitTS ≤ floor + m.opts.skew) then m
  else { m with heldSince := Function.update m.heldSince sh (some ((m.heldSince sh).getD now)) }

/-- The oldest unit that may go. One without a commit time goes at once. -/
def aligned (now : Int) (floors : CommitFloors) :
    List Shard → Option (Shard × StreamUnit) → Merger → Option StreamUnit × Merger
  | [], none, m => (none, m)
  | [], some (sh, u), m => (some u, m.take sh)
  | sh :: rest, pick, m =>
    match m.heads sh with
    | none => aligned now floors rest pick m
    | some u =>
      if u.err.isSome || u.commitTS = 0 then (some u, m.take sh)
      else if m.released now floors sh u then
        if pick.all fun (_, best) => u.commitTS < best.commitTS then
          aligned now floors rest (some (sh, u)) (m.hold now floors sh u)
        else aligned now floors rest pick (m.hold now floors sh u)
      else aligned now floors rest pick (m.hold now floors sh u)

def choose (now : Int) : Option StreamUnit × Merger :=
  if m.opts.wallClockAlign then aligned now m.commitFloors m.shards none m else m.roundRobin

/-- The relations an item needs that were not sent, or had other columns. -/
def relations (sentRel : String → String) : List RelMeta → List VEvent × (String → String)
  | [] => ([], sentRel)
  | rel :: rels =>
    if sentRel rel.name ≠ rel.signature then
      let (evs, sentRel) := relations (Function.update sentRel rel.name rel.signature) rels
      (.relation rel :: evs, sentRel)
    else relations sentRel rels

/-- The events of a unit with the relations they need. -/
def sends (sentRel : String → String) : List Item → List VEvent × (String → String)
  | [] => ([], sentRel)
  | item :: items =>
    let (rels, sentRel) := relations sentRel item.rels
    let (evs, sentRel) := sends sentRel items
    (rels ++ item.event :: evs, sentRel)

/-- All events of the unit are sent. -/
def delivered (u : StreamUnit) : Merger :=
  { m with
    sentRel := (sends m.sentRel u.items).2
    lastCommit := if u.commitTS ≠ 0 then Function.update m.lastCommit u.shard (some u.commitTS) else m.lastCommit }

/-- The shard's copy goes on. -/
def mark (u : StreamUnit) : Merger :=
  match u.copy with
  | some st => { m with copying := m.copying.filter (·.1 ≠ u.shard) ++ [(u.shard, st)] }
  | none => m

/-- The unit moves the shard's position. -/
def moves (u : StreamUnit) : Bool := u.position && m.position u.shard < u.endLSN

def move (u : StreamUnit) : Merger :=
  if m.moves u then { m with position := Function.update m.position u.shard u.endLSN } else m

/-- The shard's copy is over. -/
def unmark (u : StreamUnit) : Merger :=
  if u.copyDone then { m with copying := m.copying.filter (·.1 ≠ u.shard) } else m

/-- What follows a unit. -/
def report (u : StreamUnit) : List VEvent :=
  if (!u.position && u.copy.isNone && !u.copyDone) || u.items.isEmpty then []
  else .vgtid m.vector ::
    if u.copyDone && m.copying.isEmpty then [.copyCompleted] else []

def emit (u : StreamUnit) : List VEvent × Merger :=
  let m' := (((m.delivered u).mark u).move u).unmark u
  ((sends m.sentRel u.items).1 ++ m'.report u, m')

end Merger

/-- The positions of a vector. -/
def positionFrom (pos : VPosition) (sh : Shard) : Nat := ((pos.shards.filter (·.1 = sh)).getLast?.map (·.2)).getD 0

end PgShard.Vstream
