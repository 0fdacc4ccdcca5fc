import PgShard.TwoPhase.World

/-!
# The router's side: opening parts of a transaction and ending it

`endTxn` and what it calls, as programs over the statements they send.
-/

namespace PgShard.TwoPhase

open Interleave

/-- One shard the transaction has touched, and whether the planner saw it write. -/
structure Part where
  shard : ShardRef
  wrote : Bool
  deriving DecidableEq, Repr

inductive TransactionMode where
  | twopc | single
  deriving DecidableEq, Repr

/-- The executor's account of the open transaction. Parts are kept by shard, and
a gid is chosen before a second part counts as a writer. -/
structure Session where
  sid : String
  gid : Gid
  gidSeq : Nat
  mode : TransactionMode
  decisionLog : Bool
  /-- The router's cache of which shards can prepare transactions. -/
  preparedCapacity : ShardRef → Option Bool
  current : Part
  parked : List Part
  distinct : ((current :: parked).map (·.shard)).Nodup
  named : 2 ≤ ((current :: parked).filter (·.wrote)).length → gid ≠ ""
  ours : gid = "" ∨ gidPrefix.toList <+: gid.toList

def codeRetryable : String := "40001"
def codeFailoverInTxn : String := "40001"
def codeInDoubt : String := "08007"
def codeConnectionFailure : String := "08006"
def codeInternalError : String := "XX000"
def codeFeatureNotSupported : String := "0A000"

def errorf (code : String) : Fault := ⟨code, false, false⟩

namespace Session

variable (e : Session)

def nextGid : Gid := gidPrefix ++ e.sid ++ "-" ++ toString (e.gidSeq + 1)

lemma gidPrefix_nextGid : gidPrefix.toList <+: e.nextGid.toList := by
  simp [nextGid, String.toList_append, List.append_assoc]

/-- The gid a two-phase commit of this transaction runs under. -/
def commitGid : Gid := if e.gid = "" then e.nextGid else e.gid

lemma gidPrefix_commitGid : gidPrefix.toList <+: e.commitGid.toList := by
  unfold commitGid
  split
  · exact e.gidPrefix_nextGid
  · rename_i hgid
    exact e.ours.resolve_left hgid

/-- Every shard of the open transaction, by shard id. -/
def parts : List Part := (e.current :: e.parked).insertionSort fun a b => a.shard.id ≤ b.shard.id

lemma parts_perm : e.parts.Perm (e.current :: e.parked) := List.perm_insertionSort _ _

lemma parts_distinct : (e.parts.map (·.shard)).Nodup := (e.parts_perm.map _).nodup_iff.mpr e.distinct

def multiShardTxn : Bool := !e.parked.isEmpty

/-- A fresh transaction on its first shard. -/
def start (sid : String) (gidSeq : Nat) (mode : TransactionMode) (decisionLog : Bool)
    (preparedCapacity : ShardRef → Option Bool) (sh : ShardRef) : Session where
  sid := sid
  gid := ""
  gidSeq := gidSeq
  mode := mode
  decisionLog := decisionLog
  preparedCapacity := preparedCapacity
  current := ⟨sh, false⟩
  parked := []
  distinct := by simp
  named := by simp
  ours := .inl rfl

end Session

lemma filter_wrote_switch (all : List Part) (target : ShardRef) (hd : (all.map (·.shard)).Nodup) :
    ((((all.find? (·.shard = target)).getD ⟨target, false⟩) ::
      all.filter (·.shard ≠ target)).filter (·.wrote)).length = (all.filter (·.wrote)).length := by
  induction all with
  | nil => simp
  | cons p all ih =>
    simp only [List.map_cons, List.nodup_cons, List.mem_map, not_exists, not_and] at hd
    by_cases hp : p.shard = target
    · have hrest : (p :: all).filter (·.shard ≠ target) = all := by
        rw [List.filter_cons_of_neg (by simpa using hp), List.filter_eq_self]
        intro q hq
        simpa [← hp] using hd.1 q hq
      rw [List.find?_cons_of_pos (by simpa using hp), hrest]
      rfl
    · have ih' := ih hd.2
      simp only [hp, decide_false, Bool.false_eq_true, not_false_eq_true, List.find?_cons_of_neg,
        ne_eq, decide_true, List.filter_cons_of_pos]
      simp only [List.filter_cons] at ih' ⊢
      split_ifs at ih' ⊢ <;> simp_all

namespace Session

variable (e : Session)

/-- `switchPart`: park the current shard and take up `target`, revived if the
transaction has been there. -/
def switchPart (target : ShardRef) : Session :=
  let all := e.current :: e.parked
  { e with
    current := (all.find? (·.shard = target)).getD ⟨target, false⟩
    parked := all.filter (·.shard ≠ target)
    distinct := by
      have hcur : ((all.find? (·.shard = target)).getD ⟨target, false⟩).shard = target := by
        cases hf : all.find? (·.shard = target) with
        | none => rfl
        | some p => simpa using List.find?_some hf
      rw [List.map_cons, hcur, List.nodup_cons]
      refine ⟨by simp, ?_⟩
      exact e.distinct.sublist (List.filter_sublist.map _)
    named := by
      rw [filter_wrote_switch _ _ e.distinct]
      exact e.named }

/-- `noteWrite`: the statement about to run on the current shard writes. The
second writable shard needs a decision log, prepared-transaction capacity on
every writer (`refusal` says where it is missing) and a gid. -/
def noteWrite (inTxn : Bool) (refusal : ShardRef → Option Fault) : Except Fault Session :=
  if !inTxn || e.current.wrote then .ok e
  else if hw : e.parked.filter (·.wrote) = [] then
    .ok { e with
      current := { e.current with wrote := true }
      distinct := by simpa using e.distinct
      named := by simp [hw] }
  else if e.mode = .single then .error (errorf codeFeatureNotSupported)
  else if !e.decisionLog then .error (errorf codeFeatureNotSupported)
  else if hgid : e.gid = "" then
    match (e.parked.filter (·.wrote) ++ [e.current]).findSome? (refusal ·.shard) with
    | some f => .error f
    | none => .ok { e with
        gid := e.nextGid
        gidSeq := e.gidSeq + 1
        current := { e.current with wrote := true }
        distinct := by simpa using e.distinct
        named := fun _ hnil => by simpa [hnil, gidPrefix] using e.gidPrefix_nextGid
        ours := .inr e.gidPrefix_nextGid }
  else
    .ok { e with
      current := { e.current with wrote := true }
      distinct := by simpa using e.distinct
      named := fun _ => hgid }

end Session

def lost : Fault := errorf codeConnectionFailure

/-- The error `runOn` returns. -/
def errorOf : Option Reply → Option Fault
  | none | some (.cut _) => some lost
  | some (.fault f) => some f
  | some _ => none

def firstError (os : List (Option Reply)) : Option Fault := os.findSome? errorOf

def queryOne : Option Reply → Except Fault String
  | some (.value v) => .ok v
  | o => .error ((errorOf o).getD (errorf codeInternalError))

/-- The values of a query made on several parts, or the first part's error. -/
def queryAll : List (Option Reply) → Except Fault (List String)
  | [] => .ok []
  | o :: os => do
    let v ← queryOne o
    let vs ← queryAll os
    return v :: vs

/-- What the client is sent: the command tag, and the error `endTxn` returns. -/
structure Answer where
  sent : Option String
  err : Option Fault
  deriving DecidableEq, Repr

def nameFenceInTxn (f : Fault) : Fault := if f.stale then errorf codeFailoverInTxn else f

abbrev Program := Prog Call Reply

def runEach (parts : List Part) (sql : Sql) : Program (List (Option Reply)) :=
  Prog.each (parts.map fun p => .on p.shard sql)

/-- `PGDecisionLog.Commit`: false when the row was no longer preparing. -/
def logCommit (gid : Gid) : Program (Option Bool) := do
  match ← Prog.call (.decideCommit gid) with
  | some (.rows n) => return some (n == 1)
  | _ => return none

/-- `PGDecisionLog.Abort`: whether it returned without an error. -/
def logAbort (gid : Gid) : Program Bool := do
  match ← Prog.call (.decideAbort gid) with
  | some (.rows 0) =>
    match ← Prog.call (.selectState gid) with
    | some (.state st) => return st ≠ some .commit
    | _ => return false
  | some (.rows _) => return true
  | _ => return false

/-- The end of a transaction one of whose PREPAREs failed. -/
def abandon (gid : Gid) (prepares : List (Part × Option Reply)) : Program Unit := do
  let os ← Prog.each (prepares.map fun (p, o) =>
    .on p.shard (if errorOf o = none then .rollbackPrepared gid else .rollback))
  let recorded ← logAbort gid
  if recorded && (firstError os).isNone then
    let _ ← Prog.call (.delete gid)

/-- The end of a transaction whose commit decision is durable. The client hears
success even if the resolver has to finish it. -/
def finishCommit (gid : Gid) (writers : List Part) : Program Answer := do
  let first ← runEach (writers.take 1) (.commitPrepared gid)
  let rest ← runEach (writers.drop 1) (.commitPrepared gid)
  if (firstError (first ++ rest)).isNone then
    let _ ← Prog.call (.delete gid)
  return ⟨some "COMMIT", none⟩

/-- Every participant is prepared: the atomic commit decision. -/
def decideOutcome (gid : Gid) (writers : List Part) : Program Answer := do
  match ← logCommit gid with
  | none => return ⟨none, some (errorf codeInDoubt)⟩
  | some false =>
    let _ ← runEach writers (.rollbackPrepared gid)
    return ⟨none, some (errorf codeRetryable)⟩
  | some true => finishCommit gid writers

/-- The decision row is written: PREPARE everywhere. -/
def prepareWriters (gid : Gid) (writers : List Part) : Program Answer := do
  let prepares ← runEach writers (.prepare gid)
  match firstError prepares with
  | some f =>
    abandon gid (writers.zip prepares)
    return ⟨none, some (nameFenceInTxn f)⟩
  | none => decideOutcome gid writers

def twoPhaseCommit (gid : Gid) (writers readers : List Part) : Program Answer := do
  let _ ← runEach readers .rollback
  match queryAll (← runEach writers .currentXactId) with
  | .error f =>
    let _ ← runEach writers .rollback
    return ⟨none, some f⟩
  | .ok xids =>
  match errorOf (← Prog.call (.begin gid (writers.map (·.shard.id)) xids)) with
  | some _ =>
    let _ ← runEach writers .rollback
    return ⟨none, some (errorf codeConnectionFailure)⟩
  | none => prepareWriters gid writers

/-- `strconv.Atoi`, 0 for what is not a number. -/
def atoi (v : String) : Int :=
  match v.toList with
  | '-' :: ds => -digits ds
  | '+' :: ds => digits ds
  | ds => digits ds
where
  digits (ds : List Char) : Int :=
    if ds.all Char.isDigit then ds.foldl (fun n c => 10 * n + (c.toNat - '0'.toNat : Nat)) 0 else 0

def checkPreparedCapacity (e : Session) (sh : ShardRef) : Program (Option Fault) :=
  match e.preparedCapacity sh with
  | some true => return none
  | some false => return some (errorf codeFeatureNotSupported)
  | none => do
    match queryOne (← Prog.call (.on sh .showPrepared)) with
    | .error f => return some f
    | .ok v => return if atoi v ≤ 0 then some (errorf codeFeatureNotSupported) else none

def checkCapacities (e : Session) : List Part → Program (Option Fault)
  | [] => return none
  | p :: ps => do
    match ← checkPreparedCapacity e p.shard with
    | some f => return some f
    | none => checkCapacities e ps

def promote (hidden parts : List Part) : List Part :=
  parts.map fun p => if p ∈ hidden then { p with wrote := true } else p

/-- The gates `noteWrite` puts before a second writer, for the hidden ones. -/
def admitHidden (e : Session) (parts hidden : List Part) : Program (Except Fault (List Part × Gid)) :=
  let writers := parts.filter (·.wrote) ++ hidden
  if hidden = [] ∨ writers.length ≤ 1 then return .ok (promote hidden parts, e.gid)
  else if e.mode = .single then return .error (errorf codeFeatureNotSupported)
  else if !e.decisionLog then return .error (errorf codeFeatureNotSupported)
  else if e.gid ≠ "" then return .ok (promote hidden parts, e.gid)
  else do
    match ← checkCapacities e writers with
    | some f => return .error f
    | none => return .ok (promote hidden parts, e.nextGid)

/-- The parts with hidden writers promoted, and the gid to commit under. -/
def promoteHiddenWriters (e : Session) (parts : List Part) : Program (Except Fault (List Part × Gid)) :=
  let readers := parts.filter (!·.wrote)
  if readers = [] then return .ok (parts, e.gid)
  else do
    match queryAll (← runEach readers .hiddenWriteProbe) with
    | .error f => return .error f
    | .ok answers => admitHidden e parts (((readers.zip answers).filter (·.2 = "t")).map (·.1))

/-- The answer relayed from the statement that ends a transaction plainly. -/
def relay : Option Reply → Answer
  | some (.tag t) => ⟨some t, none⟩
  | some (.cut t) => ⟨some t, some lost⟩
  | o => ⟨none, errorOf o⟩

def endPlain (e : Session) (commit : Bool) (parts writers : List Part) : Program Answer := do
  let final := if commit then (writers.head?.getD e.current).shard else e.current.shard
  let os ← runEach (parts.filter (·.shard ≠ final)) .rollback
  let answer := relay (← Prog.call (.on final (if commit then .commit else .rollback)))
  if commit || answer.err.isSome then return answer
  return { answer with err := firstError os }

def endTxn (e : Session) (commit : Bool) : Program Answer := do
  let answer ← run
  return { answer with err := answer.err.map nameFenceInTxn }
where
  run : Program Answer := do
    if !e.multiShardTxn then return ⟨none, some (errorf codeInternalError)⟩
    let promoted ← if commit then promoteHiddenWriters e e.parts else pure (.ok (e.parts, e.gid))
    match promoted with
    | .error f =>
      let _ ← runEach e.parts .rollback
      return ⟨none, some f⟩
    | .ok (parts, gid) =>
    let writers := parts.filter (·.wrote)
    if !commit ∨ writers.length ≤ 1 then endPlain e commit parts writers
    else twoPhaseCommit gid writers (parts.filter (!·.wrote))

end PgShard.TwoPhase
