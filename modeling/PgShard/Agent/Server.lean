import PgShard.Hoare.Ends

/-!
# The agent's role changes

One member of a group: its PostgreSQL child, the `standby.signal` and the rewind marker of its
data directory, the last accepted epoch and the primary lease. Promote, Demote, Rewind, Reclone
and Restart run one at a time under the server's mutex, and each may fail at any of its steps;
what a step had done by then stays. A call carries how each of its steps turns out.
-/

namespace PgShard.Agent

/-- The lease as this member sees it. `held` is a running renewal loop (`holdStop` set), which
only ever starts on an acquired lease; `lapsing` is a lease that was acquired, is not renewed
and was not given back. -/
inductive Lease where
  | free
  | lapsing
  | held
  deriving DecidableEq, Repr

structure Server where
  /-- The identity the lease is taken under. -/
  holder : String
  recloneFromRepo : Bool
  epoch : Nat
  lease : Lease
  running : Bool
  signal : Bool
  /-- The server `pg_rewind` completed against, when nothing has run since. -/
  rewound : Option String
  deriving DecidableEq, Repr

/-- Running without `standby.signal`. -/
def Server.writable (s : Server) : Bool := s.running && !s.signal

inductive Fault where
  | staleEpoch
  | epochFile
  | leaseHolder
  | acquire
  | stop
  | start
  | role
  | promote
  | rewind
  | clone
  | slot
  | running
  | files
  | config
  deriving DecidableEq, Repr

abbrev Op := EStateM Fault Server

def check (ok : Bool) (e : Fault) : Op Unit :=
  if ok then pure () else throw e

/-- `Supervisor.Stop`: without a child there is nothing to stop; otherwise the child is gone, or
the context or the last escalation ended first. -/
def stop (gone : Bool) : Op Unit := do
  let s ← get
  if s.running then
    if gone then modify fun s => { s with running := false } else throw .stop
  else pure ()

/-- Nothing here may run while PostgreSQL does. -/
def idle (e : Fault) : Op Unit := do
  let s ← get
  check (!s.running) e

/-- How a start turns out. -/
inductive Starting where
  /-- The child could not be started, or exited before it answered. -/
  | failed
  /-- The child runs, and the context ended before it answered. -/
  | unready
  /-- The child answers; the marker of the rewind may not be removable. -/
  | ready (cleared : Bool)
  deriving DecidableEq, Repr

def Starting.alive : Starting → Bool
  | .failed => false
  | .unready => true
  | .ready _ => true

def clearRewound (ok : Bool) : Op Unit := do
  check ok .files
  modify fun s => { s with rewound := none }

/-- `Instance.Start`. -/
def start (o : Starting) : Op Unit := do
  idle .running
  modify fun s => { s with running := o.alive }
  match o with
  | .failed => throw .start
  | .unready => throw .start
  | .ready cleared => clearRewound cleared

def acquire (ok : Bool) : Op Unit := do
  check ok .acquire
  modify fun s => { s with lease := if s.lease = .held then .held else .lapsing }

/-- The lease is acquired only when no hold renews it yet. -/
def acquireUnlessHeld (ok : Bool) : Op Unit := do
  let s ← get
  if s.lease = .held then pure () else acquire ok

def startHold : Op Unit := modify fun s => { s with lease := if s.lease = .free then .free else .held }

/-- The renewal ends whatever the release does; a release that fails is only logged. -/
def stopHold (released : Bool) : Op Unit :=
  modify fun s =>
    { s with lease := if released then .free else if s.lease = .free then .free else .lapsing }

/-- `EpochStore.Accept`. -/
def fence (epoch : Nat) (written : Bool) : Op Unit := do
  let s ← get
  check (s.epoch < epoch) .staleEpoch
  check written .epochFile
  modify fun s => { s with epoch := epoch }

/-- `EpochStore.Term`: only the current epoch. -/
def fenceCurrent (epoch : Nat) : Op Unit := do
  let s ← get
  check (epoch == s.epoch) .staleEpoch

def demoteRetry (epoch : Nat) (s : Server) : Bool := epoch != 0 && epoch == s.epoch && !s.running

/-- One run of `Instance.Promote`. -/
structure Attempt where
  /-- The role could be read. -/
  readable : Bool
  /-- The WAL receiver stopped and the marker of the promotion was written. -/
  prepared : Bool
  /-- `pg_ctl promote` took the server out of recovery, whatever it answered. -/
  promoted : Bool
  /-- `pg_ctl promote` answered with success. -/
  answered : Bool
  /-- The signal was seen gone before the context ended. -/
  seen : Bool
  cleared : Bool
  /-- Configuration, reload, checkpoint and the removal of the marker. -/
  finished : Bool
  deriving DecidableEq, Repr

/-- `pg_ctl promote` on a standby and the wait for its signal file to go; nothing on a member
that is a primary already. -/
def leaveRecovery (a : Attempt) : Op Unit := do
  let s ← get
  if s.signal then do
    check a.prepared .promote
    -- only a running server leaves recovery and drops its signal file
    modify fun s => { s with signal := !(s.running && a.promoted) }
    check a.answered .promote
    let s ← get
    check (!s.signal && a.seen) .promote
  else pure ()

def promoteInstance (a : Attempt) : Op Unit := do
  check a.readable .role
  leaveRecovery a
  clearRewound a.cleared
  check a.finished .config

/-- The promotion is tried again while attempts are left and the context lasts. -/
def promoteWithRetry (a : Attempt) : List Attempt → Op Unit
  | [] => promoteInstance a
  | next :: rest => tryCatch (promoteInstance a) fun _ => promoteWithRetry next rest

def promoteRetries : Nat := 3

structure Promotion where
  epoch : Nat
  leaseHolder : String
  written : Bool
  acquired : Bool
  first : Attempt
  again : List Attempt
  deriving DecidableEq, Repr

def promote (p : Promotion) : Op Unit := do
  fence p.epoch p.written
  let s ← get
  check (p.leaseHolder == "" || p.leaseHolder == s.holder) .leaseHolder
  acquireUnlessHeld p.acquired
  startHold
  promoteWithRetry p.first (p.again.take (promoteRetries - 1))

/-- What a tool that rewrites the data directory leaves of the two files. -/
structure Contents where
  signal : Bool
  rewound : Option String
  deriving DecidableEq, Repr

def rewrite (c : Contents) : Op Unit := modify fun s => { s with signal := c.signal, rewound := c.rewound }

/-- A tool and what it leaves: `pg_rewind` and a restore remove and copy whole files, so that
`standby.signal` may go or come with either answer. -/
structure Tool where
  ok : Bool
  leaves : Contents
  deriving DecidableEq, Repr

def runTool (t : Tool) (e : Fault) : Op Unit := do
  rewrite t.leaves
  check t.ok e

/-- A synced write of a file: an error may come after the file is in place. -/
inductive Write where
  | done
  | doubtful
  | failed
  deriving DecidableEq, Repr

def writeStandbySignal : Write → Op Unit
  | .done => modify fun s => { s with signal := true }
  | .doubtful => do
    modify fun s => { s with signal := true }
    throw .files
  | .failed => throw .files

def dropStaleSlots (ok : Bool) : Op Unit := do
  idle .running
  check ok .files

/-- `baseBackup`: the source is contacted first, then the directory is emptied and filled by
`pg_basebackup -R`, which writes `standby.signal` when it succeeds. -/
structure BaseBackup where
  slot : Bool
  ok : Bool
  leaves : Contents
  configured : Bool
  deriving DecidableEq, Repr

def baseBackup (b : BaseBackup) : Op Unit := do
  idle .clone
  check b.slot .slot
  rewrite (if b.ok then { signal := true, rewound := b.leaves.rewound } else b.leaves)
  check b.ok .clone
  check b.configured .config

structure RepoClone where
  /-- A policy, its configuration and a completed backup were found. -/
  found : Bool
  slot : Bool
  restore : Tool
  slotsDropped : Bool
  recoveryRemoved : Bool
  signalled : Write
  configured : Bool
  deriving DecidableEq, Repr

def repoClone (r : RepoClone) : Op Unit := do
  idle .clone
  check r.found .clone
  check r.slot .slot
  runTool r.restore .clone
  dropStaleSlots r.slotsDropped
  check r.recoveryRemoved .files
  writeStandbySignal r.signalled
  check r.configured .config

structure Rebuild where
  repo : RepoClone
  base : BaseBackup
  deriving DecidableEq, Repr

def rebuild (r : Rebuild) : Op Unit := do
  let s ← get
  if s.recloneFromRepo then
    tryCatch (repoClone r.repo) fun _ => baseBackup r.base
  else
    baseBackup r.base

structure Rejoin where
  /-- The source's identity, when it could be read. -/
  identity : Option String
  /-- The marker of the rewind could be read. -/
  readable : Bool
  rewind : Tool
  rebuild : Rebuild
  marked : Write
  slot : Bool
  slotsDropped : Bool
  signalled : Write
  configured : Bool
  deriving DecidableEq, Repr

def rewoundAgainst (r : Rejoin) (s : Server) : Bool := r.identity.isSome && r.readable && s.rewound == r.identity

def markRewound (identity : String) : Write → Op Unit
  | .done => modify fun s => { s with rewound := some identity }
  | .doubtful => do
    modify fun s => { s with rewound := some identity }
    throw .files
  | .failed => throw .files

/-- How the directory came to be on the source's history. -/
inductive Adopted where
  | resumed
  | rewound
  | recloned
  deriving DecidableEq, Repr

/-- The rewind, unless an earlier attempt completed it, and the clone after a failed one. -/
def adopt (r : Rejoin) : Op Adopted := do
  let s ← get
  if rewoundAgainst r s then pure .resumed
  else
    tryCatch
      (do
        runTool r.rewind .rewind
        pure .rewound)
      fun _ => do
        rebuild r.rebuild
        pure .recloned

/-- A rewind is marked when the source is known; a clone has its slot already. -/
def afterAdopt (r : Rejoin) : Adopted → Op Unit
  | .resumed => check r.slot .slot
  | .rewound =>
    match r.identity with
    | none => check r.slot .slot
    | some identity => do
      markRewound identity r.marked
      check r.slot .slot
  | .recloned => pure ()

def follow (r : Rejoin) : Op Unit := do
  let adopted ← adopt r
  afterAdopt r adopted
  dropStaleSlots r.slotsDropped
  writeStandbySignal r.signalled
  check r.configured .config

structure Demotion where
  epoch : Nat
  written : Bool
  stopped : Bool
  released : Bool
  rejoin : Rejoin
  started : Starting
  cleared : Bool
  deriving DecidableEq, Repr

/-- A retry of a demotion that was begun at this epoch passes as it is. -/
def fenceDemotion (d : Demotion) : Op Unit := do
  let s ← get
  if demoteRetry d.epoch s then pure () else fence d.epoch d.written

def demote (d : Demotion) : Op Unit := do
  fenceDemotion d
  stop d.stopped
  stopHold d.released
  follow d.rejoin
  start d.started
  clearRewound d.cleared

structure Rewinding where
  epoch : Nat
  released : Bool
  stopped : Bool
  rewind : Tool
  slot : Bool
  signalled : Write
  configured : Bool
  started : Starting
  deriving DecidableEq, Repr

def rewind (r : Rewinding) : Op Unit := do
  fenceCurrent r.epoch
  stopHold r.released
  stop r.stopped
  runTool r.rewind .rewind
  check r.slot .slot
  writeStandbySignal r.signalled
  check r.configured .config
  start r.started

structure Recloning where
  epoch : Nat
  fromRepo : Bool
  released : Bool
  stopped : Bool
  rebuild : Rebuild
  started : Starting
  deriving DecidableEq, Repr

def clone (fromRepo : Bool) (r : Rebuild) : Op Unit :=
  if fromRepo then repoClone r.repo else baseBackup r.base

def reclone (r : Recloning) : Op Unit := do
  fenceCurrent r.epoch
  stopHold r.released
  stop r.stopped
  clone r.fromRepo r.rebuild
  start r.started

structure Restarting where
  epoch : Nat
  stopped : Bool
  started : Starting
  deriving DecidableEq, Repr

def restart (r : Restarting) : Op Unit := do
  fenceCurrent r.epoch
  stop r.stopped
  start r.started

inductive Event where
  | promote (p : Promotion)
  | demote (d : Demotion)
  | rewind (r : Rewinding)
  | reclone (r : Recloning)
  | restart (r : Restarting)
  /-- The child exits between two calls. -/
  | exits
  deriving DecidableEq, Repr

def Event.op : Event → Op Unit
  | .promote p => Agent.promote p
  | .demote d => Agent.demote d
  | .rewind r => Agent.rewind r
  | .reclone r => Agent.reclone r
  | .restart r => Agent.restart r
  | .exits => modify fun s => { s with running := false }

def step (s : Server) (e : Event) : Server := Hoare.left e.op s

def run (s : Server) (events : List Event) : Server := events.foldl step s

/-- The server `Run` hands to its RPCs: a primary has taken the lease and renews it before its
PostgreSQL is started. -/
def Server.started (holder : String) (recloneFromRepo : Bool) (epoch : Nat) (standby : Bool) : Server where
  holder
  recloneFromRepo
  epoch
  lease := if standby then .free else .held
  running := true
  signal := standby
  rewound := none

end PgShard.Agent
