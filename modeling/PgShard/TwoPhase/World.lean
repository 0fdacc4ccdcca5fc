import PgShard.Interleave.Rules

/-!
# One multi-shard transaction as its databases see it

The decision log in the catalog, the participants' backends, and the statements
the router and the resolver send them. Only the transaction `g` is followed;
rows and prepared transactions of other gids are left open in every reply.
-/

namespace PgShard.TwoPhase

abbrev Gid := String

structure ShardRef where
  set : String
  id : Int
  deriving DecidableEq, Repr

/-- The values the `state` column of `pgshard.xact_decisions` may hold. -/
inductive DecisionState where
  | preparing | commit | abort
  deriving DecidableEq, Repr

/-- The life of the row of `g`. `closed` remembers what a deleted row had been
decided to. -/
inductive Ledger where
  | absent
  | preparing
  | decided (commit : Bool)
  | closed (verdict : Option Bool)
  deriving DecidableEq, Repr

namespace Ledger

def row : Ledger → Option DecisionState
  | preparing => some .preparing
  | decided true => some .commit
  | decided false => some .abort
  | absent | closed _ => none

/-- What the row was durably updated to, also after its deletion. -/
def verdict : Ledger → Option Bool
  | decided b => some b
  | closed v => v
  | absent | preparing => none

/-- `UPDATE … SET state = b WHERE state = 'preparing'`. -/
def decide (b : Bool) : Ledger → Ledger
  | preparing => decided b
  | l => l

def delete : Ledger → Ledger
  | preparing => closed none
  | decided b => closed (some b)
  | l => l

lemma decide_of_ne {l : Ledger} (h : l ≠ preparing) (b : Bool) : l.decide b = l := by
  cases l <;> first | rfl | exact absurd rfl h

lemma decide_ne_preparing (l : Ledger) (b : Bool) : l.decide b ≠ preparing := by
  cases l <;> simp [decide]

end Ledger

/-- The transaction on one shard. `failed` is a block whose statement failed:
it is open, and PostgreSQL ends it with a rollback whatever ends it. -/
inductive Xact where
  | idle | active | failed | prepared | committed | rolledBack
  deriving DecidableEq, Repr

/-- Not ended and not yet prepared, or prepared. -/
def Xact.Live (x : Xact) : Prop := x = .active ∨ x = .failed ∨ x = .prepared

structure World where
  ledger : Ledger
  topology : List ShardRef
  xact : ShardRef → Xact
  /-- The shard's backend assigned a transaction id. -/
  assigned : ShardRef → Bool

def World.setXact (s : World) (sh : ShardRef) (x : Xact) : World :=
  { s with xact := fun sh' => if sh' = sh then x else s.xact sh' }

@[simp] lemma World.setXact_same (s : World) (sh : ShardRef) (x : Xact) : (s.setXact sh x).xact sh = x := if_pos rfl

def World.assign (s : World) (sh : ShardRef) : World :=
  { s with assigned := fun sh' => if sh' = sh then true else s.assigned sh' }

/-- The statements a router sends on a participant's stream. -/
inductive Sql where
  | rollback | commit
  /-- `SELECT pg_current_xact_id_if_assigned() IS NOT NULL` -/
  | hiddenWriteProbe
  /-- `SHOW max_prepared_transactions` -/
  | showPrepared
  /-- `SELECT pg_current_xact_id()::text` -/
  | currentXactId
  | prepare (gid : Gid) | commitPrepared (gid : Gid) | rollbackPrepared (gid : Gid)
  deriving DecidableEq, Repr

structure Decision where
  gid : Gid
  state : DecisionState
  participants : List Int
  /-- How long the row has gone without a sign of its coordinator, in nanoseconds. -/
  age : Int
  deriving DecidableEq, Repr

inductive Call where
  | on (sh : ShardRef) (sql : Sql)
  -- the router's decision log
  | begin (gid : Gid) (participants : List Int) (xids : List String)
  | decideCommit (gid : Gid) | decideAbort (gid : Gid)
  | selectState (gid : Gid)
  | delete (gid : Gid)
  -- the resolver's
  | readDecisions
  | listShards (shardSet : String)
  | listPrepared (sh : ShardRef)
  | abortStale (gid : Gid) (timeout : Int)
  | finish (sh : ShardRef) (database : String) (commit : Bool) (gid : Gid)
  | deleteState (gid : Gid) (state : DecisionState)
  deriving DecidableEq, Repr

/-- An error answer: its SQLSTATE, whether the pooler gave the reason
`STALE_GENERATION`, and whether its text says that something does not exist. -/
structure Fault where
  code : String
  stale : Bool
  missing : Bool
  deriving DecidableEq, Repr

def isGonePreparedXact (f : Fault) : Bool := f.code == "42704" || f.missing

inductive Reply where
  | tag (t : String)
  /-- The tag, and then the stream broke before ReadyForQuery. -/
  | cut (t : String)
  | value (v : String)
  | fault (f : Fault)
  | rows (n : Nat)
  | state (st : Option DecisionState)
  | decisions (ds : List Decision)
  | shards (l : List ShardRef)
  | held (l : List (Gid × String))
  deriving DecidableEq, Repr

def gidPrefix : String := "pgshard-"

variable (g : Gid) (db : String)

/-- What a statement does when its database carries it out. -/
inductive Effect : Call → World → World → Reply → Prop
  | rollback {s sh} : s.xact sh = .active ∨ s.xact sh = .failed →
      Effect (.on sh .rollback) s (s.setXact sh .rolledBack) (.tag "ROLLBACK")
  | rollbackIdle {s sh} : s.xact sh ≠ .active → s.xact sh ≠ .failed → Effect (.on sh .rollback) s s (.tag "ROLLBACK")
  | probe {s sh} : s.xact sh = .active →
      Effect (.on sh .hiddenWriteProbe) s s (.value (if s.assigned sh then "t" else "f"))
  | showPrepared {s sh} (v) : s.xact sh = .active → Effect (.on sh .showPrepared) s s (.value v)
  | currentXactId {s sh} (v) : s.xact sh = .active → Effect (.on sh .currentXactId) s (s.assign sh) (.value v)
  | commit {s sh} : s.xact sh = .active → Effect (.on sh .commit) s (s.setXact sh .committed) (.tag "COMMIT")
  | commitCut {s sh} : s.xact sh = .active → Effect (.on sh .commit) s (s.setXact sh .committed) (.cut "COMMIT")
  | commitFailed {s sh} : s.xact sh = .failed → Effect (.on sh .commit) s (s.setXact sh .rolledBack) (.tag "ROLLBACK")
  -- a deferred constraint, a serialization failure: the statement ends the transaction
  | commitAborts {s sh} (f) : s.xact sh = .active → Effect (.on sh .commit) s (s.setXact sh .rolledBack) (.fault f)
  | prepare {s sh} : s.xact sh = .active →
      Effect (.on sh (.prepare g)) s (s.setXact sh .prepared) (.tag "PREPARE TRANSACTION")
  -- PostgreSQL answers this one without an error
  | prepareFailed {s sh} : s.xact sh = .failed →
      Effect (.on sh (.prepare g)) s (s.setXact sh .rolledBack) (.tag "ROLLBACK")
  | prepareAborts {s sh} (f) : s.xact sh = .active →
      Effect (.on sh (.prepare g)) s (s.setXact sh .rolledBack) (.fault f)
  | commitPrepared {s sh} : s.xact sh = .prepared →
      Effect (.on sh (.commitPrepared g)) s (s.setXact sh .committed) (.tag "COMMIT PREPARED")
  | rollbackPrepared {s sh} : s.xact sh = .prepared →
      Effect (.on sh (.rollbackPrepared g)) s (s.setXact sh .rolledBack) (.tag "ROLLBACK PREPARED")
  -- gids are unique: the row is inserted once
  | begin {s} (ps xs) : s.ledger = .absent → Effect (.begin g ps xs) s { s with ledger := .preparing } (.rows 1)
  | decideCommit {s} :
      Effect (.decideCommit g) s { s with ledger := s.ledger.decide true }
        (.rows (if s.ledger = .preparing then 1 else 0))
  | decideAbort {s} :
      Effect (.decideAbort g) s { s with ledger := s.ledger.decide false }
        (.rows (if s.ledger = .preparing then 1 else 0))
  | selectState {s} : Effect (.selectState g) s s (.state s.ledger.row)
  | delete {s} (n) : Effect (.delete g) s { s with ledger := s.ledger.delete } (.rows n)
  | readDecisions {s} (ds : List Decision) :
      (ds.filter (·.gid = g)).map (·.state) = s.ledger.row.toList →
      Effect .readDecisions s s (.decisions ds)
  | listShards {s} (shardSet) :
      Effect (.listShards shardSet) s s
        (.shards (s.topology.filter fun sh => shardSet = "" ∨ sh.set = shardSet))
  | listPrepared {s} (sh) (l : List (Gid × String)) :
      (∀ d, (g, d) ∈ l ↔ gidPrefix.toList <+: g.toList ∧ s.xact sh = .prepared ∧ d = db) →
      Effect (.listPrepared sh) s s (.held l)
  -- whether the row is stale is the catalog clock's to say
  | abortStale {s} (t) :
      Effect (.abortStale g t) s { s with ledger := s.ledger.decide false }
        (.rows (if s.ledger = .preparing then 1 else 0))
  | abortStaleNot {s} (t) : Effect (.abortStale g t) s s (.rows 0)
  | finish {s sh} (commit) : s.xact sh = .prepared → Effect (.finish sh db commit g) s
        (s.setXact sh (if commit then .committed else .rolledBack)) (.tag "")
  | deleteState {s} (st) : s.ledger.row = some st →
      Effect (.deleteState g st) s { s with ledger := s.ledger.delete } (.rows 1)
  | deleteStateNot {s} (st) : s.ledger.row ≠ some st → Effect (.deleteState g st) s s (.rows 0)
  -- statements about other transactions
  | selectOther {s gid} (st) : gid ≠ g → Effect (.selectState gid) s s (.state st)
  | abortOther {s gid} (t n) : gid ≠ g → Effect (.abortStale gid t) s s (.rows n)
  | finishOther {s gid} (sh d b t) : gid ≠ g → Effect (.finish sh d b gid) s s (.tag t)
  | deleteOther {s gid} (st n) : gid ≠ g → Effect (.deleteState gid st) s s (.rows n)

/-- What an error answer to a statement may be, when the statement left the
world `s`: "does not exist" is said only of a gid the shard no longer holds, and
a COMMIT that took effect is never answered with a retryable error. -/
def Honest (c : Call) (s : World) (f : Fault) : Prop :=
  match c with
  | .finish sh _ _ gid => gid = g → isGonePreparedXact f → s.xact sh ≠ .prepared
  | .on sh .commit => s.xact sh = .committed → f.code ≠ "40001" ∧ f.stale = false
  | _ => True

/-- A statement is carried out and answered, refused, or carried out and
answered with an error. -/
inductive Exec : Call → World → World → Reply → Prop
  | answered {c s s' r} : Effect g db c s s' r → Exec c s s' r
  | refused {c s} (f) : Honest g c s f → Exec c s s (.fault f)
  | failed {c s s' r} (f) : Effect g db c s s' r → Honest g c s' f → Exec c s s' (.fault f)

/-- What happens to the databases by itself: a backend dies and its open
transaction with it; shards are added, and removed once they are drained. -/
inductive Env : World → World → Prop
  | dies {s} (sh) : s.xact sh = .active ∨ s.xact sh = .failed → Env s (s.setXact sh .rolledBack)
  | reshard {s} (l : List ShardRef) : (∀ sh, (s.xact sh).Live → sh ∈ l) → Env s { s with topology := l }

end PgShard.TwoPhase
