import Mathlib

/-!
# A migration and its shards

A migration is a row of the catalog that the controller's applier drives across its target shards. The row
holds an entry for every shard; everything a later pass or another controller knows of the migration is in
it.
-/

namespace PgShard.Migration

inductive ShardState
  | pending
  | running
  | retrying
  | applied
  | skipped
  | failed
  deriving DecidableEq

/-- An SQLSTATE, as its class and what follows it; empty for an error the server did not send. -/
structure SqlState where
  cls : String := ""
  sub : String := ""
  deriving DecidableEq

/-- One shard's entry. `step` is the step or phase the shard is on; `ran` records that an attempt on the
shard reached the server and may have committed. -/
structure ShardMigration where
  state : ShardState
  attempts : Nat := 0
  step : Nat := 0
  error : String := ""
  sqlState : SqlState := {}
  ran : Bool := false
  deriving DecidableEq

inductive Key
  | shard (id : Int)
  | catalog
  deriving DecidableEq

def Key.text : Key → String
  | .shard id => toString id
  | .catalog => "catalog"

inductive MigrationState
  | queued
  | running
  | complete
  | failed
  deriving DecidableEq

inductive Strategy
  | direct
  | concurrent
  | multistep
  | rewrite
  | repack
  deriving DecidableEq

inductive Scope
  | all
  | home
  | existing
  deriving DecidableEq

inductive CheckKind
  | none
  | constraint
  | constraintValid
  | notnull
  | notnullValid
  | indexValid
  | detached
  | detachPending
  deriving DecidableEq

/-- A catalog predicate on one shard. -/
structure MigrationCheck where
  kind : CheckKind := .none
  schema : String := ""
  table : String := ""
  name : String := ""
  nameSchema : String := ""
  deriving DecidableEq

/-- What an online rewrite of a column records: the table, and the columns routers show while the working
column is there. -/
structure RewriteChange where
  schema : String := ""
  table : String := ""
  column : String := ""
  columns : List String := []
  settled : Bool := false
  deriving DecidableEq

/-- The row, with the values it is inserted with. The keys stand in the order `sortedShardKeys` gives them:
shards by number, the catalog last. `Q` is the type of a step. -/
structure DDLMigration (Q : Type) where
  kind : String
  strategy : Strategy
  scope : Scope := .all
  homeShard : Int := 0
  state : MigrationState := .queued
  shardSet : String := ""
  placements : List String := []
  steps : List Q := []
  rewrite : RewriteChange := {}
  keys : List Key := []
  perShard : Key → ShardMigration := fun _ => { state := .pending }
  error : String := ""

variable {Q : Type}

namespace DDLMigration

variable (m : DDLMigration Q)

def setEntry (key : Key) (s : ShardMigration) : DDLMigration Q :=
  { m with perShard := Function.update m.perShard key s }

def anyFailed : Bool := m.keys.any fun key => (m.perShard key).state = .failed

/-- Some shard of the migration was driven past pending. -/
def touched : Bool := m.keys.any fun key => (m.perShard key).state ≠ .pending

end DDLMigration

/-- What the applier can tell of an error: which of its own errors it wraps, and the SQLSTATE under it. -/
structure Err where
  text : String
  code : SqlState := {}
  dial : Bool := false
  saveFailed : Bool := false
  skipped : Bool := false
  safeToRetry : Bool := false
  deriving DecidableEq

/-- An error that does not say that the shard is skipped. -/
def Err.plain (e : Err) : Err := { e with skipped := false }

/-- The errors a shard step is tried again after. -/
def Err.transient (e : Err) : Bool :=
  e.dial || e.safeToRetry || e.code ∈ [⟨"55", "P03"⟩, ⟨"40", "P01"⟩, ⟨"57", "P01"⟩, ⟨"57", "P03"⟩, ⟨"40", "001"⟩] ||
    e.code.cls = "08" || e.code = {}

def outsideTransaction (kind : String) : Bool := kind = "CREATE DATABASE" || kind = "DROP DATABASE"

/-- Whether an attempt that ended this way could have reached the server and committed. -/
def mayHaveRun (m : DDLMigration Q) : Option Err → Bool
  | none => true
  | some e =>
    if e.dial || e.saveFailed then false
    else if m.strategy = .concurrent || m.strategy = .repack || outsideTransaction m.kind then true
    else e.code ∉ [⟨"55", "P03"⟩, ⟨"40", "P01"⟩, ⟨"40", "001"⟩, ⟨"57", "P03"⟩]

/-- What a save answers when it fails. -/
inductive SaveError
  | notLeaderTerm
  | migrationHeld
  | other (e : Err)
  deriving DecidableEq

/-- The step is not run because the catalog would not record that it was about to be. -/
def SaveError.notSaved : SaveError → Err
  | .notLeaderTerm =>
    { text := "progress not saved: catalog: the controller leadership this write carries has ended", saveFailed := true }
  | .migrationHeld =>
    { text := "progress not saved: catalog: the migration is held while a workflow copies or holds its database's DDL lock"
      saveFailed := true }
  | .other e => { e.plain with text := "progress not saved: " ++ e.text, saveFailed := true }

namespace DDLMigration

variable {m : DDLMigration Q} {key key' : Key} {s : ShardMigration}

@[simp] lemma keys_setEntry : (m.setEntry key s).keys = m.keys := rfl

@[simp] lemma strategy_setEntry : (m.setEntry key s).strategy = m.strategy := rfl

@[simp] lemma state_setEntry : (m.setEntry key s).state = m.state := rfl

@[simp] lemma steps_setEntry : (m.setEntry key s).steps = m.steps := rfl

@[simp] lemma entry_setEntry : (m.setEntry key s).perShard key = s := Function.update_self ..

lemma entry_setEntry_ne (hne : key' ≠ key) : (m.setEntry key s).perShard key' = m.perShard key' :=
  Function.update_of_ne hne ..

/-- Nothing but the entry of one shard. -/
structure Only (key : Key) (m m' : DDLMigration Q) : Prop where
  keys : m'.keys = m.keys
  state : m'.state = m.state
  strategy : m'.strategy = m.strategy
  steps : m'.steps = m.steps
  entries : ∀ key', key' ≠ key → m'.perShard key' = m.perShard key'

lemma Only.refl (key : Key) (m : DDLMigration Q) : m.Only key m := ⟨rfl, rfl, rfl, rfl, fun _ _ => rfl⟩

lemma Only.setEntry {key : Key} {m m' : DDLMigration Q} (h : m.Only key m') (s : ShardMigration) :
    m.Only key (m'.setEntry key s) :=
  ⟨h.keys, h.state, h.strategy, h.steps, fun key' hne => (entry_setEntry_ne hne).trans (h.entries key' hne)⟩

end DDLMigration

end PgShard.Migration
