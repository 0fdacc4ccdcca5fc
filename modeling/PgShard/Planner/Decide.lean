import PgShard.Key.KeyType
import PgShard.Planner.Walker

/-!
# From the relations of a statement to its plan

Once the walk is done the relations decide the plan: the home shard alone, the shards of the
key predicates, or every shard.
-/

namespace PgShard.Planner

open Key

inductive Kind where
  | unsharded
  | equalUnique
  | isIn
  | scatter
  | reference
  | sessionLocal
  deriving DecidableEq, Repr

/-- A key predicate with the type of the column it is about. -/
structure PlanTerm where
  term : KeyTerm
  keyType : String
  keyChecked : Bool
  deriving DecidableEq, Repr

structure Plan where
  kind : Kind
  shards : List Nat := []
  deferred : Bool := false
  terms : List PlanTerm := []
  multiRow : Bool := false
  /-- The statement also reads a table of the home shard. -/
  touchesHome : Bool := false
  /-- Whether the shards' answers can be merged, and why not. -/
  merge : Except Refusal Unit := .error (notYet
    "multi-shard execution of this statement is not available yet" "filter on one shard key value")
  homeDDL : Bool := false
  nextVal : String := ""

/-- What the passes that only refuse say of a tree: the merge specification of a SELECT and of
a UNION ALL, the functions an arm of it calls, what a replicated write evaluates. -/
structure Passes where
  merge : SelectStmt Node → String → List String → Bool → Except Refusal Unit
  unionMerge : SetOpStmt Node → Except Refusal Unit
  arm : SelectStmt Node → Except Refusal Unit
  replicated : Node → Except Refusal Unit

/-- Where a key lives, and what a parameter is: the hash and the shard map, and the Bind. -/
structure Keys where
  locate : Value → Except Refusal Nat
  param : Nat → TypeHint → String → Except Refusal Value

def Blocker.text : Blocker → String
  | .joins => "joins"
  | .subqueries => "subqueries"
  | .functionScans => "function scans"
  | .setOperations => "set operations"
  | .windowFunctions => "window functions"
  | .commonTableExpressions => "common table expressions"
  | .forUpdate => "FOR UPDATE/SHARE"

def blockedBy (blockers : List Blocker) : Refusal :=
  notYet ("multi-shard SELECT with " ++ String.intercalate ", " (blockers.map Blocker.text) ++
    " is not available yet") "filter on one shard key value"

namespace Walker

/-- The sharded relations, each with its place. -/
def sharded (w : Walker) : Scope := w.rels.zipIdx.filter fun (r, _) => r.kind = .sharded

def count (w : Walker) (k : PlacementKind) : Nat := (w.rels.filter (·.kind = k)).length

/-- The shard key a join can be planned on: every sharded relation is joined to the others on
it, and two of them agree on its type. -/
def colocatedKey (w : Walker) : Option String :=
  if w.refPreserved ∨ w.rels.any (fun r => r.kind = .unsharded) then none
  else match w.sharded with
    | [] => none
    | (_, i) :: rest =>
      match w.rels[w.root i]? with
      | none => none
      | some root =>
        if rest.all (fun (r, j) => w.root j = w.root i ∧ r.shardKeyChecked = true ∧
            root.shardKeyChecked = true ∧ r.shardKeyType = root.shardKeyType) then
          some root.shardKey
        else none

/-- Why a statement cannot run on each shard. -/
def crossShardJoinError (w : Walker) : Refusal :=
  if w.outer.isNone then
    blockedBy (w.block .setOperations).scatterBlockers
  else if w.refPreserved then
    notYet "an outer join that preserves the rows of a reference table is not available yet"
      "put the reference table on the null-supplying side, or join it inner"
  else match w.rels.find? (fun r => r.kind = .unsharded) with
    | some r => notYet ("a multi-shard statement cannot include unsharded table \"" ++ r.name ++
        "\", which is on the home shard alone")
        ("declare it a reference table to have a copy on every shard, " ++
          "or filter the sharded table to one shard key value")
    | none =>
      let heads := w.sharded.map fun (_, i) => w.root i
      match (w.sharded.filter fun (r, _) => r.shardKeyChecked = false).getLast? with
      | some (r, _) =>
        if w.sharded.length > 1 ∧ heads.all (· = heads.headD 0) then
          notYet ("a join of sharded tables cannot be planned until the shard key type of \"" ++
            r.name ++ "\" has been inspected")
            "the controller records what type each shard key has; retry once it has run"
        else unrelated
      | none => unrelated
where
  unrelated : Refusal :=
    if w.scatterBlockers ≠ [] ∧ Blocker.joins ∉ w.scatterBlockers then blockedBy w.scatterBlockers
    else notYet "cross-shard join is not available yet"
      "join sharded tables on equal shard keys and filter on one key value"

/-- How a read merges across shards, or why it cannot. -/
def mergeSpec (passes : Passes) (w : Walker) : Except Refusal Unit :=
  match w.outer, w.colocatedKey with
  | some outer, some key =>
    let blockers := if w.rels.length > 1 then w.scatterBlockers.filter (· ≠ .joins) else w.scatterBlockers
    if blockers ≠ [] then .error (blockedBy blockers)
    else
      let names := w.sharded.flatMap fun (r, _) => [r.aliasName, r.name]
      passes.merge outer key names (w.rels.all fun r => r.kind = .sharded)
  | _, _ => .error w.crossShardJoinError

/-- The key predicates of a relation. -/
def termsOf (w : Walker) (i : Nat) : List KeyTerm := (w.terms.filter (·.1 = i)).map (·.2)

/-- The key predicates of a whole group, shared by its relations. -/
def groupTerms (w : Walker) (head : Nat) : List KeyTerm :=
  (w.sharded.filter fun (_, i) => w.root i = head).flatMap fun (_, i) => w.termsOf i

/-- The heads of the groups of the sharded relations, each once. -/
def heads (w : Walker) : List Nat :=
  w.sharded.foldl (fun hs (_, i) => if w.root i ∈ hs then hs else hs ++ [w.root i]) []

/-- The terms of the plan: group by group, with the type of the head's key. -/
def planTerms (w : Walker) : List PlanTerm :=
  w.heads.flatMap fun h => (w.groupTerms h).map fun t =>
    match w.rels[h]? with
    | some r => ⟨t, r.shardKeyType, r.shardKeyChecked⟩
    | none => ⟨t, "", false⟩

end Walker

/-- The values of a term, those of its parameters after its constants. -/
def termValues (keys : Keys) (t : PlanTerm) : Except Refusal (List Value) := do
  let bound ← t.term.params.mapM fun p => keys.param p.number p.hint t.keyType
  return t.term.values ++ bound

/-- The shard of one value of a term. -/
def locateValue (keys : Keys) (t : PlanTerm) (v : Value) : Except Refusal Nat :=
  match t.keyChecked, v with
  | false, .text _ => .error (notYet ("the shard key of this table has not been checked for the " ++
      "generation now in force, so a text key cannot be routed yet")
      "retry: the controller records the key column's type shortly after the table becomes effective")
  | _, _ => keys.locate (normaliseKey v t.keyType)

/-- Sorted, each shard once. -/
def sortCompact (shards : List Nat) : List Nat := (shards.insertionSort (· ≤ ·)).dedup

/-- The shards of a term. -/
def termShards (keys : Keys) (t : PlanTerm) (values : List Value) : Except Refusal (List Nat) := do
  return sortCompact (← values.mapM (locateValue keys t))

/-- The shards all terms agree on. -/
def agree (multiRow : Bool) : Option (List Nat) → List (List Nat) → Except Refusal (List Nat)
  | found, [] => .ok (found.getD [])
  | none, s :: rest => agree multiRow (some s) rest
  | some found, s :: rest =>
    if found = s then agree multiRow (some found) rest
    else if multiRow then .error (notYet "multi-row INSERT spanning shards is not available yet"
      "insert rows for one shard key value per statement")
    else .error (notYet "cross-shard join is not available yet"
      "join sharded tables only on equal shard keys")

/-- The terms' values turned into shards. -/
def Plan.finish (keys : Keys) (home : Nat) (p : Plan) (values : List (List Value)) : Except Refusal Plan := do
  let each ← (p.terms.zip values).mapM fun (t, vs) => termShards keys t vs
  let shards ← agree p.multiRow none each
  if p.touchesHome ∧ shards ≠ [home] then
    throw (notYet "a statement including an unsharded table must resolve to the home shard alone"
      "unsharded tables live on the home shard; combine them only with rows of that shard")
  return { p with shards := shards }

/-- A plan whose parameters are now known. -/
def Plan.resolve (keys : Keys) (home : Nat) (p : Plan) : Except Refusal Plan := do
  if p.deferred = false then return p
  let values ← p.terms.mapM (termValues keys)
  Plan.finish keys home { p with deferred := false } values

/-- The SELECTs a tree of set operations combines, leftmost first. -/
def unionArms (top : Bool) : Node → Except Refusal (List (SelectStmt Node))
  | .setOpStmt s =>
    if !top && (s.sortClause ≠ [] || s.limitCount.isSome || s.limitOffset.isSome ||
        s.lockingClause || s.withClause.isSome) then
      .error (notYet ("multi-shard UNION ALL with ORDER BY, LIMIT or WITH on a parenthesised " ++
        "set operation inside it is not available yet") "move the ORDER BY and LIMIT to the outermost level")
    else do
      let l ← unionArms false s.larg
      let r ← unionArms false s.rarg
      return l ++ r
  | .selectStmt s => .ok [s]
  | _ => .ok []
termination_by n => sizeOf n
decreasing_by
  all_goals
    cases s
    simp
    omega

/-- An arm each shard can produce on its own. -/
def plainArm (passes : Passes) (s : SelectStmt Node) : Except Refusal Unit := do
  let refuse (what : String) : Except Refusal Unit :=
    throw (notYet ("multi-shard UNION ALL with " ++ what ++ " in an arm is not available yet")
      "each arm of a multi-shard UNION ALL has to be a plain SELECT over one sharded table")
  if s.withClause.isSome then refuse "a WITH clause"
  if s.distinctClause ≠ [] then refuse "DISTINCT"
  if s.groupClause ≠ [] ∨ s.havingClause.isSome then refuse "GROUP BY"
  if s.windowClause ≠ [] then refuse "window functions"
  if s.sortClause ≠ [] ∨ s.limitCount.isSome ∨ s.limitOffset.isSome then refuse "ORDER BY or LIMIT"
  if s.lockingClause then refuse "FOR UPDATE/SHARE"
  if s.valuesLists ≠ [] then refuse "VALUES"
  match s.fromClause with
  | [.rangeVar _] => pure ()
  | _ => refuse "anything but one table in FROM"
  if s.whereClause.any hasSubLink then refuse "a subquery"
  passes.arm s

/-- A UNION ALL whose arms each read one sharded table runs whole on every shard. -/
def scatterUnionAll (passes : Passes) (sess : Session) (w : Walker) (top : SetOpStmt Node) : Except Refusal Plan := do
  if w.rels.any (fun r => r.kind ≠ .sharded) then
    throw (notYet "multi-shard UNION ALL is available only when every arm reads a sharded table"
      "read reference and unsharded tables in a query of their own")
  let blockers := w.scatterBlockers.filter (· ≠ .setOperations)
  if blockers ≠ [] then
    throw (notYet ("multi-shard UNION ALL with " ++
      String.intercalate ", " (blockers.map Blocker.text) ++ " is not available yet")
      "filter on one shard key value")
  if top.withClause.isSome then
    throw (notYet "multi-shard UNION ALL with a WITH clause is not available yet"
      "filter on one shard key value")
  if top.lockingClause then
    throw (notYet "multi-shard UNION ALL with FOR UPDATE/SHARE is not available yet" "")
  let arms ← unionArms true (.setOpStmt top)
  arms.forM (plainArm passes)
  passes.unionMerge top
  return { kind := .scatter, shards := sess.allShards, merge := .ok () }

/-- A statement some sharded relation of which has no key predicate. -/
def scatter (passes : Passes) (sess : Session) (w : Walker) (write : Bool) (stmt : String) : Except Refusal Plan := do
  if write then
    throw (notYet ("scatter " ++ stmt ++ " without a shard key predicate is not available yet")
      "add WHERE <shard key> = ... or IN (...); this will fan out once multi-shard writes land")
  match w.setOp, w.unionAllOnly with
  | some top, true => scatterUnionAll passes sess w top
  | _, _ =>
    if w.rels.length > 1 ∧ w.colocatedKey.isNone then throw w.crossShardJoinError
    w.mergeSpec passes
    return { kind := .scatter, shards := sess.allShards, merge := .ok () }

/-- A write to a reference table runs on every shard, and must do the same on each. -/
def referenceWrite (passes : Passes) (sess : Session) (root : Node) (t : Rel) (others : Nat) : Except Refusal Plan := do
  if others > 0 then
    throw (notYet ("a write to reference table \"" ++ t.name ++ "\" cannot read sharded or unsharded tables")
      "the statement runs on every shard; a sharded or unsharded table is present on one shard only")
  passes.replicated root
  if sess.searchPath.tail.any (fun schema => schema.toLower = "pg_catalog") then
    throw (notYet ("a write to reference table \"" ++ t.name ++ "\" cannot run with " ++
      sess.searchPath.headD "" ++ " searched before pg_catalog: an unqualified function name " ++
      "could resolve to that schema instead of the built-in")
      "reset search_path, or qualify the reference write's functions with pg_catalog")
  if t.refDeclared ∧ t.refChecked = false then
    throw (notYet ("a write to reference table \"" ++ t.name ++
      "\" cannot be planned until its shards have been inspected")
      "the controller records what a reference table evaluates per shard; retry once it has run")
  if t.refHazards ≠ [] then
    throw (notYet ("a write to reference table \"" ++ t.name ++
      "\" would not write the same row on every shard: " ++ String.intercalate "; " t.refHazards)
      "a reference table is replicated to every shard, so every value it stores must be fixed by the statement")
  return { kind := .reference
           shards := if sess.allShards = [] then [sess.homeShard] else sess.allShards }

/-- The kind of a keyed plan. -/
def keyedKind (terms : List PlanTerm) : Kind :=
  if terms.any (·.term.list) then .isIn else .equalUnique

/-- The plan the collected relations and their key predicates give. -/
def decideRels (passes : Passes) (keys : Keys) (sess : Session) (stmt : String) (write : Bool)
    (w : Walker) (multiRow : Bool) : Except Refusal Plan :=
  if w.count .sharded = 0 then
    if w.count .unsharded = 0 ∧ w.count .reference > 0 then .ok { kind := .reference }
    else .ok { kind := .unsharded, shards := [sess.homeShard] }
  else if w.sharded.any (fun (_, i) => w.groupTerms (w.root i) = []) then
    scatter passes sess w write stmt
  else
    let p : Plan :=
      { kind := keyedKind w.planTerms, terms := w.planTerms, multiRow := multiRow
        deferred := w.planTerms.any (fun t => t.term.params ≠ [])
        touchesHome := w.count .unsharded ≠ 0
        merge := if write then .error (notYet
            "multi-shard execution of this statement is not available yet"
            "filter on one shard key value")
          else w.mergeSpec passes }
    if p.deferred then .ok p
    else p.finish keys sess.homeShard (p.terms.map (·.term.values))

/-- The plan of the collected relations. -/
def decide (passes : Passes) (keys : Keys) (sess : Session) (root : Node) (stmt : String)
    (write : Bool) (w : Walker) (multiRow : Bool) : Except Refusal Plan :=
  match write, w.target.bind (w.rels[·]?) with
  | true, some t =>
    if t.kind = .reference then
      referenceWrite passes sess root t (w.count .sharded + w.count .unsharded)
    else decideRels passes keys sess stmt write w multiRow
  | _, _ => decideRels passes keys sess stmt write w multiRow

end PgShard.Planner
