import PgShard.Migration.Rewrite

/-!
# Passes over one migration

Any number of controllers run passes. Leadership is a term in the catalog: a write under another term than
the one now recorded is refused, a write under no term is not guarded. Between any two calls of a pass a
successor may take the term, the pass may be cancelled, or its process may die.
-/

namespace PgShard.Migration

open Interleave

variable {Q : Type} (p : Pass)

/-- The migration, begun when it has not been. -/
def begun (m : DDLMigration Q) (serving : String) : Prog Q (Option (DDLMigration Q)) :=
  if m.state = .queued then start p m serving else pure (some m)

/-- Driving a migration that has begun. -/
def driveBegun (m : DDLMigration Q) : Prog Q Unit := do
  if m.strategy = .rewrite then driveRewrite p m
  else
    match ← driveShards p m.keys m with
    | none => return ()
    | some m => finish p (tally m)

def drive (m : DDLMigration Q) : Prog Q Unit := do
  match ← ask .shardSet with
  | .error _ => return ()
  | .ok serving =>
    if straddled m serving && m.touched then
      fail p m ("planned against shard set " ++ m.shardSet ++ ", which is no longer serving (" ++ serving ++
        " is); per-shard progress cannot be read against another set, so this migration needs reconciling by hand")
    else
      let m := if straddled m serving then { m with state := .queued, shardSet := "" } else m
      match ← begun p m serving with
      | none => return ()
      | some m => driveBegun p m

/-- Whether the migration is held while it is queued. -/
def held : Prog Q (Except Err Bool) := do
  match ← ask .queued with
  | .error e => return .error e
  | .ok true => return .ok false
  | .ok false => ask .lockedDatabases

/-- The row that was found is driven, unless it is held. -/
def takeUp (found : Option (DDLMigration Q)) : Prog Q Unit := do
  match ← held, found with
  | .ok locked, some m => if locked && m.state = .queued then pure () else drive p m
  | _, _ => pure ()

def runOnce : Prog Q Unit := do
  match ← ask .pending with
  | .error _ => ask .returned
  | .ok (found, others) =>
    if found.isNone && !others then sweepRewriteArtifacts
    takeUp p found
    ask .returned

/-- What a shard holds and what has come of it: whether the statement has taken effect, the steps and
phases that have come to an end, whether the working column is there, and whether the cutover
committed or the rewrite was reverted. -/
structure ShardData (Q : Type) where
  ran : Bool := false
  done : List Q := []
  phases : List Nat := []
  hidden : Bool := false
  cut : Bool := false
  reverted : Bool := false

/-- `owner` is the pass in flight of the controller that leads. The rest is what was seen to happen:
`attempts`, with which shards a statement was sent to, whether it was sent as resumed, and whether it had
taken effect before; `cutovers`, with the shards that were behind when one was made; `concluded`, with
which shards were taken to have cut over and whether they had. -/
structure World (Q : Type) where
  term : Nat := 1
  owner : Option Nat := none
  cancelled : Nat → Bool := fun _ => false
  enqueued : Bool := true
  row : DDLMigration Q
  shards : Key → ShardData Q := fun _ => {}
  -- the path of the controller's own sessions leads to the table
  pathFinds : Bool := true
  attempts : List (Key × Bool × Bool) := []
  cutovers : List (Key × List Key) := []
  concluded : List (Key × Bool) := []

inductive SaveLuck
  | fine
  | held
  | lost (e : Err)
  | landed (e : Err)
  deriving DecidableEq

/-- What the world makes of a call. -/
structure Luck where
  yes : Bool := true
  save : SaveLuck := .fine
  attemptsLeft : Nat := 0
  err : Option Err := none
  -- the call took effect although it failed
  commits : Bool := false
  set : String := "default"
  ids : List Int := []
  moved : Option String := none
  home : Option Int := none
  columns : List String := []

/-- Only a statement as a whole skips a shard. -/
def Luck.plain (x : Luck) : Option Err := x.err.map .plain

inductive Event
  | enqueue
  /-- Another controller takes the leader lock. -/
  | takeLeaderTerm
  /-- The controller that leads begins a pass; it may have lost the lock since it looked. -/
  | begin (led : Bool) (catalog : Bool)
  | cancel (pass : Nat)

namespace World

variable (w : World Q)

def accepts (term : Nat) : Bool := term = 0 || term = w.term

/-- The row a save leaves. -/
def saved (m : DDLMigration Q) : DDLMigration Q :=
  { w.row with
    state := m.state
    keys := m.keys
    perShard := m.perShard
    error := m.error
    shardSet := if m.shardSet = "" then w.row.shardSet else m.shardSet
    homeShard := m.homeShard }

def savedMeta (m : DDLMigration Q) : DDLMigration Q := { w.row with rewrite := m.rewrite, shardSet := m.shardSet }

/-- An UPDATE of the row under a term. -/
def write (x : SaveLuck) (term : Nat) (starts : Bool) (row : DDLMigration Q) : Except SaveError Unit × World Q :=
  match x with
  | .lost e => (.error (.other e), w)
  | .landed e => (.error (.other e), if w.accepts term then { w with row := row } else w)
  | .held =>
    if w.accepts term && starts && w.row.state = .queued then (.error .migrationHeld, w)
    else if w.accepts term then (.ok (), { w with row := row }) else (.error .notLeaderTerm, w)
  | .fine => if w.accepts term then (.ok (), { w with row := row }) else (.error .notLeaderTerm, w)

def onShard (key : Key) (f : ShardData Q → ShardData Q) : World Q :=
  { w with shards := Function.update w.shards key (f (w.shards key)) }

/-- The targets on which the working column is not filled in. -/
def behind (m : DDLMigration Q) : List Key :=
  m.keys.filter fun key => !(List.range rewriteCutover).all fun phase => (w.shards key).phases.contains phase

/-- A controller's own session finds the table by its schema, or by its path. -/
def finds (m : DDLMigration Q) : Bool := m.rewrite.schema ≠ "" || w.pathFinds

def pendingRow : Option (DDLMigration Q) :=
  if w.row.state = .running || w.enqueued && w.row.state = .queued then some w.row else none

end World

variable {Q : Type}

def ShardData.takes (d : ShardData Q) (took : Bool) : ShardData Q := { d with ran := d.ran || took }

def ShardData.effect (d : ShardData Q) (phase : Nat) : ShardData Q := if phase = 0 then { d with hidden := true } else d

def ShardData.succeed (d : ShardData Q) (phase : Nat) : ShardData Q := { d with phases := d.phases ++ [phase] }

def ShardData.swap (d : ShardData Q) : ShardData Q := { d with hidden := false, cut := true }

def answer {A : Type} (a : A) : Option Err → Except Err A
  | some e => .error e
  | none => .ok a

/-- The calls on the shards. -/
def shardExec (x : Luck) : (c : Call Q) → World Q → Option (c.Reply × World Q)
  | .step m key resumed, w =>
    let w := { w with attempts := w.attempts ++ [(key, resumed, (w.shards key).ran)] }
    let took := x.err.isNone || (x.commits && mayHaveRun m x.err)
    some (answer .applied x.err, w.onShard key (·.takes took))
  | .runStep _ key st, w =>
    some (answer .applied x.plain, w.onShard key fun d => if x.err.isNone then { d with done := d.done ++ [st] } else d)
  | .rewriteColumns _, w => some (answer x.columns x.err, w)
  | .rewritePhase _ key phase, w =>
    match x.plain with
    | none => some (.ok (), w.onShard key fun d => (d.effect phase).succeed phase)
    | some e => some (.error e, if x.commits then w.onShard key (·.effect phase) else w)
  | .columnExists m key, w =>
    match x.plain with
    | some e => some (.error e, w)
    | none =>
      let w := { w with cutovers := w.cutovers ++ [(key, w.behind m)] }
      if (w.shards key).hidden then some (.ok true, w)
      else
        some (.ok false,
          { w.onShard key (·.succeed rewriteCutover) with concluded := w.concluded ++ [(key, (w.shards key).cut)] })
  | .swapColumns _ key, w =>
    if !(w.shards key).hidden then some (.error (x.plain.getD { text := "column does not exist", code := ⟨"42", "703"⟩ }), w)
    else
      match x.plain with
      | none => some (.ok (), w.onShard key fun d => d.swap.succeed rewriteCutover)
      | some e => some (.error e, if x.commits then w.onShard key (·.swap) else w)
  | .cutoverCommitted m key, w =>
    match x.err with
    | some e => some (.error e, w)
    | none =>
      if (w.shards key).hidden && w.finds m then some (.ok false, w)
      else some (.ok true, { w with concluded := w.concluded ++ [(key, (w.shards key).cut)] })
  | .revertRewrite m key, w =>
    if w.finds m && (x.err.isNone || x.commits) then
      some (answer () x.err, w.onShard key fun d => { d with hidden := false, reverted := true })
    else some (answer () x.err, w)
  | .sweepShard key, w =>
    if x.err.isNone || x.commits then some (answer () x.err, w.onShard key fun d => { d with hidden := false })
    else some (answer () x.err, w)
  | _, _ => none

def exec (x : Luck) (i : Nat) : (c : Call Q) → World Q → Option (c.Reply × World Q)
  | .pending, w => some (answer (w.pendingRow, !x.yes) x.err, w)
  | .lockedDatabases, w => some (answer (!x.yes) x.err, w)
  | .queued, w => some (answer x.yes x.err, w)
  | .shardSet, w => some (answer x.set x.err, w)
  | .placementDrift, w => some (answer x.moved x.err, w)
  | .databaseHomeShard, w => some (answer x.home x.err, w)
  | .shards, w => some (answer x.ids x.err, w)
  | .save term m, w => some (w.write x.save term (m.state = .running) (w.saved m))
  | .mirrorAndSave term m, w => some (w.write x.save term false (w.saved m))
  | .saveMeta term m, w => some (w.write x.save term false (w.savedMeta m))
  | .leader _, w => some (x.yes, w)
  | .ctxErr, w => some (w.cancelled i, w)
  | .sleep, w => some (if w.cancelled i && !x.yes then .error () else .ok (), w)
  | .attemptsLeft, w => some (x.attemptsLeft, w)
  | .returned, w => some ((), if w.owner = some i then { w with owner := none } else w)
  | c, w => shardExec x c w

def happen (e : Event) (n : Nat) (w : World Q) : Option (Task (Call Q) Call.Reply Unit) × World Q :=
  match e with
  | .enqueue => (none, { w with enqueued := true })
  | .takeLeaderTerm => (none, { w with term := w.term + 1, owner := none })
  | .begin true catalog =>
    -- a term is held by one process, and its passes run one after the other
    if w.owner.isNone then (some (runOnce ⟨w.term, catalog⟩), { w with owner := some n }) else (none, w)
  | .begin false catalog => (some (runOnce ⟨0, catalog⟩), w)
  | .cancel pass => (none, { w with cancelled := Function.update w.cancelled pass true })

/-- So many calls of a pass with nothing amiss. -/
def undisturbed (pass calls : Nat) : List (Move Luck Event) := List.replicate calls (.act pass {})

def host (Q : Type) : Host (World Q) (Call Q) Luck Event Call.Reply := ⟨exec, happen⟩

end PgShard.Migration
