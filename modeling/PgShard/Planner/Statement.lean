import PgShard.Planner.Decide

/-!
# Planning a statement

SELECT, INSERT, UPDATE and DELETE: the walk over the clauses each of them has, and then the
decision.
-/

namespace PgShard.Planner

open Key

/-- A value the router fills from a global sequence: DEFAULT, or a call of `nextval`. -/
def fillable : Node → Bool
  | .setToDefault => true
  | .funcCall names _ _ => match names.getLast? with
    | some name => name.toLower = "nextval"
    | none => false
  | _ => false

/-- The items of one VALUES row. -/
def rowItems : Node → List Node
  | .list items => items
  | _ => []

mutual

/-- The highest parameter number of a tree. -/
def maxParam (n : Node) : Nat :=
  match n with
  | .paramRef k => k
  | n => maxParams n.children
termination_by 4 * sizeOf n + 5
decreasing_by have := n.sizeOf_children; omega

def maxParams : List Node → Nat
  | [] => 0
  | n :: rest => max (maxParam n) (maxParams rest)
termination_by ns => 4 * sizeOf ns
decreasing_by
  all_goals
    have := one_le_sizeOf rest
    simp only [List.cons.sizeOf_spec]
    omega

end

/-- The sequence columns an INSERT leaves to the router, each with its place in the column
list; the ones not listed come after it. -/
def sequenceSlots (cols seqCols : List String) (rows : List Node) : List (String × Nat) :=
  let step := fun (slots, next) col =>
    match cols.reverse.findIdx? (· = col) with
    | none => (slots ++ [(col, next)], next + 1)
    | some back =>
      let idx := cols.length - 1 - back
      if rows.any (fun row => (rowItems row)[idx]?.any fillable) then (slots ++ [(col, idx)], next)
      else (slots, next)
  (seqCols.foldl step ([], cols.length)).1

/-- The parameters the slots of one row take, numbered on from `param`. -/
def fillRow (items : List Node) (row : Nat) (param : Nat) : List (String × Nat) → List (String × Nat × Nat)
  | [] => []
  | (col, idx) :: rest =>
    match items[idx]? with
    | some item =>
      if fillable item then (col, row, param + 1) :: fillRow items row (param + 1) rest
      else fillRow items row param rest
    | none => (col, row, param + 1) :: fillRow items row (param + 1) rest

/-- The parameters of every row. -/
def fillRows (r : Rel) (width : Nat) (slots : List (String × Nat)) :
    Nat → Nat → List Node → Except Refusal (List (String × Nat × Nat))
  | _, _, [] => .ok []
  | row, param, n :: rest =>
    if (rowItems n).length ≠ width then
      .error (notYet ("INSERT into \"" ++ r.name ++
        "\" has a VALUES row with a different number of values than columns") "")
    else do
      let here := fillRow (rowItems n) row param slots
      let later ← fillRows r width slots (row + 1) (param + here.length) rest
      return here ++ later

/-- The parameters an INSERT is given for its sequence columns: column, row and number. -/
def rewriteInsert (s : InsertStmt Node) (r : Rel) (rows : List Node) : Except Refusal (List (String × Nat × Nat)) :=
  let slots := sequenceSlots s.cols r.seqCols rows
  if r.seqCols = [] ∨ rows = [] ∨ slots = [] then .ok []
  else fillRows r s.cols.length slots 0 (maxParam (.insertStmt s)) rows

/-- The VALUES rows of a query; `none` without a query. -/
def valuesOf : Option Node → Option (List Node)
  | none => none
  | some (.selectStmt q) => some q.valuesLists
  | some (.setOpStmt _) => some []
  | some _ => none

def needsKey (r : Rel) : Refusal :=
  notYet ("insert requires the shard key: column \"" ++ r.shardKey ++ "\" of \"" ++ r.name ++
    "\" is not in the column list")
    ("list the columns explicitly and include \"" ++ r.shardKey ++ "\"")

def shortRow : Refusal := notYet "insert requires the shard key: VALUES row has fewer values than columns" ""

/-- The place of the shard key in a column list, the last one of its name. -/
def keyIndex (cols : List String) (key : String) : Option Nat :=
  (cols.reverse.findIdx? (· = key)).map fun back => cols.length - 1 - back

/-- The key predicate one VALUES row gives. -/
def rowTerm (keyIdx : Option Nat) (param : Option Nat) (row : Node) : Except Refusal KeyTerm :=
  match param with
  | some n => .ok { params := [⟨n, .int⟩] }
  | none =>
    match keyIdx.bind (fun k => (rowItems row)[k]?) with
    | none => .error shortRow
    | some item =>
      match constOrParam item with
      | .error e => .error e
      | .ok none => .error (notYet "shard key of an INSERT must be a constant or a parameter"
          "expressions, DEFAULT and NULL cannot be routed")
      | .ok (some ⟨.param n, hint⟩) => .ok { params := [⟨n, hint⟩] }
      | .ok (some ⟨.value v, _⟩) => .ok { values := [v] }

/-- The key predicates of the VALUES rows, `injected` the parameters the router fills in. -/
def rowTerms (s : InsertStmt Node) (r : Rel) (rows : List Node)
    (injected : List (String × Nat × Nat)) : Except Refusal (List KeyTerm) :=
  let mine := injected.filter (·.1 = r.shardKey)
  let keyIdx := keyIndex s.cols r.shardKey
  if keyIdx.isNone ∧ mine = [] then .error (needsKey r)
  else rows.zipIdx.mapM fun (row, i) =>
    rowTerm keyIdx ((mine.find? (·.2.1 = i)).map (·.2.2)) row

/-- The key predicates of an INSERT into a sharded table, one a row. -/
def insertTerms (s : InsertStmt Node) (r : Rel) : Except Refusal (List KeyTerm) :=
  if s.cols = [] then .error (needsKey r)
  else match valuesOf s.selectStmt with
    | none | some [] => .error (notYet "INSERT ... SELECT into a sharded table is not available yet"
        "insert with VALUES so each row's shard key is visible")
    | some rows =>
      match rewriteInsert s r rows with
      | .error e => .error e
      | .ok injected =>
        match rowTerms s r rows injected with
        | .error e => .error e
        | .ok terms =>
          if r.shardKey ∈ s.conflictCols then
            .error (notYet ("shard key is immutable: ON CONFLICT DO UPDATE cannot set \"" ++
              r.shardKey ++ "\"") "")
          else .ok terms

lemma insertTerms_ok {s : InsertStmt Node} {r : Rel} {terms : List KeyTerm} (h : insertTerms s r = .ok terms) :
    ∃ rows injected, valuesOf s.selectStmt = some rows ∧ rows ≠ [] ∧ rewriteInsert s r rows = .ok injected ∧
      rowTerms s r rows injected = .ok terms ∧ r.shardKey ∉ s.conflictCols := by
  unfold insertTerms at h
  split at h
  · cases h
  split at h
  · cases h
  · cases h
  next hnone hv =>
  split at h
  · cases h
  next hinj =>
  split at h
  · cases h
  next hterms =>
  split at h
  · cases h
  cases h
  exact ⟨_, _, hv, fun hnil => hnone hnil, hinj, hterms, ‹_›⟩

/-- The relation a write is about. The name of a WITH item is refused. -/
def addTarget (sess : Session) (rv : RangeVar) (what : String) : Walk Rel := do
  match ← lookup sess (← get).ctes rv with
  | none => throw (notYet (what ++ " a CTE is not supported") "")
  | some r =>
    modify fun w => { w with rels := w.rels ++ [r], target := some w.rels.length }
    return r

/-- The walk over an INSERT: everything but its ON CONFLICT clause. -/
def walkInsert (sess : Session) (s : InsertStmt Node) : Walk Unit := do
  withClause sess s.withClause
  let r ← addTarget sess s.relation "INSERT into"
  let i := (← get).rels.length - 1
  if r.kind = .sharded then
    let terms ← insertTerms s r
    modify fun w => { w with terms := w.terms ++ terms.map fun t => (i, t) }
  else match s.selectStmt, valuesOf s.selectStmt with
    | some q, some [] => nestedStatement sess q
    | _, _ => pure ()
  exprs sess ((valuesOf s.selectStmt).getD [])
  exprs sess s.returningClause

/-- The FROM items of an UPDATE, and of a DELETE. -/
def joinedItems (sess : Session) (items : List Node) : Walk Unit := do
  if items ≠ [] then blocker .joins
  fromItems sess items

/-- The column a target assigns. -/
def targetName : Node → String
  | .resTarget name _ => name
  | _ => ""

def walkUpdate (sess : Session) (s : UpdateStmt Node) : Walk Unit := do
  withClause sess s.withClause
  let start := (← get).rels.length
  let r ← addTarget sess s.relation "UPDATE of"
  if r.kind = .sharded ∧ r.shardKey ∈ s.targetList.map targetName then
    throw (notYet ("shard key is immutable: UPDATE cannot set \"" ++ r.shardKey ++ "\" of \"" ++
      r.name ++ "\"") "delete the row and insert it with the new key")
  joinedItems sess s.fromClause
  whereClause sess ((← get).scopeFrom start) s.whereClause
  exprs sess s.targetList
  exprs sess s.returningClause

def walkDelete (sess : Session) (s : DeleteStmt Node) : Walk Unit := do
  withClause sess s.withClause
  let start := (← get).rels.length
  let _ ← addTarget sess s.relation "DELETE from"
  joinedItems sess s.usingClause
  whereClause sess ((← get).scopeFrom start) s.whereClause
  exprs sess s.returningClause

/-- The table a SELECT ... INTO creates: the clause stands on the leftmost arm. -/
def intoOf : Node → Option RangeVar
  | .selectStmt s => s.intoClause
  | .setOpStmt s => intoOf s.larg
  | _ => none
termination_by n => sizeOf n
decreasing_by
  cases s
  simp
  omega

/-- Quotes removed from both ends of a name. -/
def trimQuotes (s : String) : String :=
  String.ofList (((s.toList.dropWhile (· = '"')).reverse.dropWhile (· = '"')).reverse)

/-- The registered sequence a literal names: by its registration, by the object behind it on
a shard, or as a column. -/
def registeredSequence (sess : Session) (lit : String) : String :=
  match sess.snapshot with
  | none => ""
  | some snap =>
    let parts := (lit.splitOn ".").map trimQuotes
    let object := match parts with
      | [name] => registeredSequenceObject sess { relname := name }
      | [schema, name] => registeredSequenceObject sess { schemaname := schema, relname := name }
      | _ => ""
    let column := fun (schemas : List String) (table col : String) =>
      match schemas.findSome? fun schema =>
          (snap.tables ⟨sess.database, schema, table⟩).map (schema, ·) with
      | some (schema, pl) =>
        if pl.sequenceColumns.contains col then
          sess.database ++ "." ++ schema ++ "." ++ table ++ "." ++ col
        else ""
      | none => ""
    if lit = "" then ""
    else if snap.sequences.contains lit then lit
    else if object ≠ "" then object
    else match parts with
      | [table, col] =>
        column (if sess.searchPath = [] then ["public"] else sess.searchPath) table col
      | [schema, table, col] => column [schema] table col
      | _ => ""

/-- The sequence a bare `SELECT nextval('...')` asks for. -/
def nextvalName (sess : Session) : Node → String
  | .selectStmt s =>
    match s.targetList with
    | [.resTarget _ (some (.funcCall names _ [arg]))] =>
      if s.fromClause = [] ∧ s.whereClause.isNone ∧ s.withClause.isNone ∧ s.valuesLists = [] ∧
          (names.getLast?.map String.toLower) = some "nextval" then
        match arg with
        | .aConst (.sval lit) => registeredSequence sess lit
        | .typeCast (.aConst (.sval lit)) _ => registeredSequence sess lit
        | _ => ""
      else ""
    | _ => ""
  | _ => ""

/-- The walk over a statement. A bare `SELECT nextval('...')` is answered without one. -/
def walk (sess : Session) (node : Node) : Except Refusal Walker :=
  match node with
  | .selectStmt _ | .setOpStmt _ =>
    if nextvalName sess node ≠ "" then .ok {} else finalState (selectStmt sess node)
  | .insertStmt s => finalState (walkInsert sess s)
  | .updateStmt s => finalState (walkUpdate sess s)
  | .deleteStmt s => finalState (walkDelete sess s)
  | _ => .error (notYet "this statement is not supported through the router" "")
where
  finalState (m : Walk Unit) : Except Refusal Walker := do
    let (_, w) ← m.run {}
    return w

/-- A query planned as a read. -/
def planSelect (passes : Passes) (keys : Keys) (sess : Session) (node : Node) : Except Refusal Plan := do
  let w ← walk sess node
  if nextvalName sess node ≠ "" then return { kind := .sessionLocal, nextVal := nextvalName sess node }
  decide passes keys sess node "SELECT" false w false

/-- A plan confined to the home shard, where the table a SELECT ... INTO creates lives. -/
def onHome (p : Plan) : Except Refusal Plan :=
  if p.kind ≠ .unsharded then
    .error (notYet "SELECT INTO over sharded or reference tables is not available yet"
      "the object would exist on the home shard only; create it through the operator on every shard")
  else .ok { p with homeDDL := true }

/-- A SELECT ... INTO `rv`. -/
def derived (passes : Passes) (keys : Keys) (sess : Session) (rv : RangeVar) (node : Node) : Except Refusal Plan :=
  match lookup sess [] rv with
  | .error e => .error e
  | .ok (some r) =>
    if r.kind ≠ .unsharded then
      .error (notYet ("SELECT INTO cannot create the sharded or reference table \"" ++ r.name ++ "\"")
        "CREATE TABLE it through the migration model, then INSERT ... SELECT the rows")
    else planSelect passes keys sess node >>= onHome
  | .ok none => planSelect passes keys sess node >>= onHome

/-- A write planned: `stmt` is what a refusal calls it. -/
def planWrite (passes : Passes) (keys : Keys) (sess : Session) (node : Node) (stmt : String)
    (rows : Nat) : Except Refusal Plan := do
  let w ← walk sess node
  let sharded := (w.target.bind (w.rels[·]?)).any (·.kind = .sharded)
  decide passes keys sess node stmt true w (sharded && rows > 1)

/-- The plan of a statement. -/
def plan (passes : Passes) (keys : Keys) (sess : Session) (node : Node) : Except Refusal Plan :=
  match node with
  | .selectStmt _ | .setOpStmt _ =>
    match intoOf node with
    | some rv => derived passes keys sess rv node
    | none => planSelect passes keys sess node
  | .insertStmt s =>
    planWrite passes keys sess node "INSERT" ((valuesOf s.selectStmt).getD []).length
  | .updateStmt _ => planWrite passes keys sess node "UPDATE" 0
  | .deleteStmt _ => planWrite passes keys sess node "DELETE" 0
  | _ => .error (notYet "this statement is not supported through the router" "")

end PgShard.Planner
