import PgShard.Planner.Catalog

/-!
# The walk over a statement

The walker goes over one statement and collects its relations, the shard key predicates it
finds for them, and the groups of relations whose keys it takes to be equal. It follows the
clauses by hand; inside an expression it looks for subqueries with the generic visitor.
-/

namespace PgShard.Planner

open Key

/-- A feature of the outermost SELECT that a run on every shard cannot carry. -/
inductive Blocker where
  | joins
  | subqueries
  | functionScans
  | setOperations
  | windowFunctions
  | commonTableExpressions
  | forUpdate
  deriving DecidableEq, Repr

/-- A bind parameter used as a shard key. -/
structure ParamRef where
  number : Nat
  hint : TypeHint
  deriving DecidableEq, Repr

/-- One shard key predicate: the key is one of the values or one of the parameters. -/
structure KeyTerm where
  values : List Value := []
  params : List ParamRef := []
  list : Bool := false
  deriving DecidableEq, Repr

structure Walker where
  rels : List Rel := []
  ctes : List String := []
  scatterBlockers : List Blocker := []
  nested : Bool := false
  /-- Set inside the ON clause of an outer join. -/
  outerQuals : Bool := false
  /-- A reference relation stands on the preserved side of an outer join. -/
  refPreserved : Bool := false
  locking : Bool := false
  /-- The outermost SELECT, and the outermost set operation. -/
  outer : Option (SelectStmt Node) := none
  setOp : Option (SetOpStmt Node) := none
  unionAllOnly : Bool := false
  /-- The relation a write is about, by its place in `rels`. -/
  target : Option Nat := none
  /-- The group pointers in the order they were set: relation, and the one it points to. A
  pointer is set once and only from the head of a group to the head of another. -/
  groups : List (Nat × Nat) := []
  /-- The key predicates in the order they were found, each with its relation. -/
  terms : List (Nat × KeyTerm) := []

abbrev Walk := StateT Walker (Except Refusal)

/-- Relations a column may belong to, each with its place in the walker's list. -/
abbrev Scope := List (Rel × Nat)

/-- The head of a relation's group. -/
def headOf (groups : List (Nat × Nat)) (i : Nat) : Nat :=
  groups.foldl (fun cur link => if cur = link.1 then link.2 else cur) i

namespace Walker

def root (w : Walker) (i : Nat) : Nat := headOf w.groups i

def unify (w : Walker) (a b : Nat) : Walker :=
  if w.root a = w.root b then w else { w with groups := w.groups ++ [(w.root b, w.root a)] }

/-- The relations from a place in the list on. -/
def scopeFrom (w : Walker) (start : Nat) : Scope := w.rels.zipIdx.drop start

def block (w : Walker) (b : Blocker) : Walker :=
  if w.scatterBlockers.contains b then w
  else { w with scatterBlockers := w.scatterBlockers ++ [b] }

end Walker

def blocker (b : Blocker) : Walk Unit := modify (·.block b)

def add (r : Option Rel) : Walk Unit :=
  match r with
  | none => pure ()
  | some r => modify fun w => { w with rels := w.rels ++ [r] }

/-- The names of a column reference, `none` when one of its components is a star. -/
def stringFields : List Field → Option (List String)
  | [] => some []
  | .name s :: rest => (stringFields rest).map (s :: ·)
  | .star :: _ => none

/-- The relation of the scope whose shard key has the name; `none` also when two groups
have one. -/
def keyMatch (w : Walker) (col qual : String) : Option (Rel × Nat) → Scope → Option (Rel × Nat)
  | found, [] => found
  | found, (r, i) :: rest =>
    if r.kind ≠ .sharded ∨ r.shardKey ≠ col then keyMatch w col qual found rest
    else if qual ≠ "" ∧ qual ≠ r.aliasName then keyMatch w col qual found rest
    else match found with
      | none => keyMatch w col qual (some (r, i)) rest
      | some (m, j) =>
        if w.root j ≠ w.root i then none else keyMatch w col qual (some (m, j)) rest

/-- The relation whose shard key an expression names. -/
def keyColumn (w : Walker) (expr : Node) (scope : Scope) : Option (Rel × Nat) :=
  match expr with
  | .columnRef fields =>
    match stringFields fields with
    | none => none
    | some names =>
      match names.reverse with
      | [] => none
      | [col] => keyMatch w col "" none scope
      | col :: qual :: _ => keyMatch w col qual none scope
  | _ => none

def keyColumn? (w : Walker) (expr : Option Node) (scope : Scope) : Option (Rel × Nat) := expr.bind (keyColumn w · scope)

/-- The key column under any number of casts. -/
def castKey (w : Walker) (scope : Scope) : Node → Option (Rel × Nat)
  | .typeCast arg _ => castKey w scope arg
  | n => keyColumn w n scope

/-- A cast around the shard key is refused: the value would hash by another type. -/
def refuseCastKey (w : Walker) (expr : Option Node) (scope : Scope) : Except Refusal Unit :=
  match expr with
  | some (.typeCast arg _) =>
    match castKey w scope arg with
    | some (r, _) => .error (notYet ("shard key column " ++ r.shardKey ++ " is compared through a cast")
        "compare the bare column and cast the literal instead")
    | none => .ok ()
  | _ => .ok ()

/-- The operands of a predicate gathered into a term, `none` when one of them is neither a
constant nor a parameter. -/
def readItems : KeyTerm → List Node → Except Refusal (Option KeyTerm)
  | t, [] => .ok (some t)
  | t, it :: rest =>
    match constOrParam it with
    | .error e => .error e
    | .ok none => .ok none
    | .ok (some ⟨.param n, hint⟩) => readItems { t with params := t.params ++ [⟨n, hint⟩] } rest
    | .ok (some ⟨.value v, _⟩) => readItems { t with values := t.values ++ [v] } rest

/-- The term a predicate gives, `none` when it does not route. -/
def termOf (value : Option Node) (list : Bool) : Except Refusal (Option KeyTerm) :=
  match value, list with
  | none, _ => .ok none
  | some v, false => readItems {} [v]
  | some (.list items), true => readItems { list := true } items
  | some _, true => .ok none

/-- Two relations joined by name: with NATURAL, or with USING the shard key. -/
def joinUsing (natural : Bool) (using_ : List String) (scope : Scope) (w : Walker) : Walker :=
  let sharded := scope.filter fun (r, _) => r.kind = .sharded ∧ (natural ∨ r.shardKey ∈ using_)
  match sharded with
  | [] => w
  | (r₀, i₀) :: rest =>
    rest.foldl (fun w (r, i) => if r.shardKey = r₀.shardKey then w.unify i₀ i else w) w

/-- The sides of an outer join whose rows survive without a match. -/
def preservedSides (jt : JoinType) (left right : Scope) : Scope :=
  match jt with
  | .inner => []
  | .left => left
  | .right => right
  | .full => left ++ right

def notePreservedReference (jt : JoinType) (left right : Scope) (w : Walker) : Walker :=
  if (preservedSides jt left right).any (fun (r, _) => r.kind = .reference) then
    { w with refPreserved := true }
  else w

mutual

/-- Whether some node of a tree satisfies a test. -/
def Node.any (p : Node → Bool) (n : Node) : Bool := p n || anyOf p n.children
termination_by 4 * sizeOf n + 5
decreasing_by have := n.sizeOf_children; omega

def anyOf (p : Node → Bool) : List Node → Bool
  | [] => false
  | n :: rest => n.any p || anyOf p rest
termination_by ns => 4 * sizeOf ns
decreasing_by
  all_goals
    have := one_le_sizeOf rest
    simp only [List.cons.sizeOf_spec]
    omega

end

def hasWindow (n : Node) : Bool :=
  n.any fun
    | .funcCall _ windowed _ => windowed
    | .jsonAgg windowed _ => windowed
    | _ => false

def hasSubLink (n : Node) : Bool :=
  n.any fun
    | .subLink _ _ => true
    | _ => false

/-- The features of the outermost SELECT that a run on every shard cannot carry. -/
def outerFeatures (s : SelectStmt Node) (w : Walker) : Walker :=
  let w := if s.windowClause ≠ [] then w.block .windowFunctions else w
  let w := if (s.targetList ++ s.sortClause).any hasWindow then w.block .windowFunctions else w
  let w := if s.sortClause.any hasSubLink then w.block .subqueries else w
  if s.lockingClause then w.block .forUpdate else w

/-- The write in a WITH item is left to the one shard of a local database. -/
def nestedWrite (sess : Session) : Walk Unit :=
  if sess.localOnly then pure ()
  else throw (notYet "data-modifying statements in WITH are not available yet"
    "run the modification as its own statement")

mutual

/-- One SELECT: its WITH items, its FROM items, then the clauses that are followed. -/
def selectStmt (sess : Session) : Node → Walk Unit
  | .setOpStmt s => do
    withClause sess s.withClause
    blocker .setOperations
    modify fun w =>
      if w.nested = false ∧ w.setOp.isNone then { w with setOp := some s, unionAllOnly := true } else w
    modify fun w =>
      if s.op = .union ∧ s.all = true then w else { w with unionAllOnly := false }
    modify fun w => { w with nested := true }
    selectStmt sess s.larg
    selectStmt sess s.rarg
  | .selectStmt s => do
    withClause sess s.withClause
    modify fun w => if s.lockingClause then { w with locking := true } else w
    modify fun w => if w.nested then w else outerFeatures s { w with outer := some s }
    let start := (← get).rels.length
    fromItems sess s.fromClause
    let scope := (← get).scopeFrom start
    whereClause sess scope s.whereClause
    exprs sess s.targetList
    expr? sess s.havingClause
    exprs sess s.valuesLists
  | _ => pure ()
termination_by n => 4 * sizeOf n + 5
decreasing_by
  all_goals
    cases s
    simp
    omega

def withClause (sess : Session) : Option (WithClause Node) → Walk Unit
  | none => pure ()
  | some wc => withItems sess wc.ctes
termination_by wc => 4 * sizeOf wc
decreasing_by
  cases wc
  simp
  omega

/-- The items of a WITH clause. A name counts as soon as its item is reached. -/
def withItems (sess : Session) : List Node → Walk Unit
  | [] => pure ()
  | .commonTableExpr name _ query :: rest => do
    modify fun w => { w with ctes := name :: w.ctes }
    blocker .commonTableExpressions
    nestedStatement sess query
    withItems sess rest
  | _ :: rest => withItems sess rest
termination_by ns => 4 * sizeOf ns
decreasing_by
  all_goals
    have := one_le_sizeOf rest
    simp only [List.cons.sizeOf_spec, Node.commonTableExpr.sizeOf_spec]
    omega

/-- A query inside the statement. Anything that is neither a query nor a write is passed over. -/
def nestedStatement (sess : Session) (node : Node) : Walk Unit := do
  let prev := (← get).nested
  modify fun w => { w with nested := true }
  match node with
  | .selectStmt s => selectStmt sess (.selectStmt s)
  | .setOpStmt s => selectStmt sess (.setOpStmt s)
  | .insertStmt _ | .updateStmt _ | .deleteStmt _ => nestedWrite sess
  | _ => pure ()
  modify fun w => { w with nested := prev }
termination_by 4 * sizeOf node + 6

def fromItems (sess : Session) : List Node → Walk Unit
  | [] => pure ()
  | n :: rest => do
    fromItem sess n
    fromItems sess rest
termination_by ns => 4 * sizeOf ns
decreasing_by
  all_goals
    have := one_le_sizeOf rest
    simp only [List.cons.sizeOf_spec]
    omega

def fromItem (sess : Session) : Node → Walk Unit
  | .rangeVar rv => do
    let seq := globalSequenceRelation sess rv
    if seq ≠ "" then
      throw (notYet ("reading the global sequence " ++ seq ++
          " as a table is not available through the router: " ++ rv.relname ++
          " is one shard's own sequence object, and the value the router allocates from lives in the catalog")
        "read pgshard.sequences for the global counter, or keep the value INSERT ... RETURNING gave you")
    add (← lookup sess (← get).ctes rv)
  | .joinExpr j => do
    blocker .joins
    let start := (← get).rels.length
    fromItem sess j.larg
    let mid := (← get).rels.length
    fromItem sess j.rarg
    modify fun w => notePreservedReference j.jointype
      ((w.scopeFrom start).take (mid - start)) (w.scopeFrom mid) w
    modify fun w =>
      if j.usingClause ≠ [] ∨ j.isNatural = true then
        joinUsing j.isNatural j.usingClause (w.scopeFrom start) w
      else w
    let prev := (← get).outerQuals
    modify fun w => if j.jointype = .inner then w else { w with outerQuals := true }
    whereClause sess ((← get).scopeFrom start) j.quals
    modify fun w => { w with outerQuals := prev }
  | .rangeSubselect query _ => do
    blocker .subqueries
    nestedStatement sess query
  | .rangeFunction functions _ => do
    blocker .functionScans
    exprs sess functions
  | .rangeTableSample relation args _ => do
    fromItem sess relation
    exprs sess args
  | .rangeTableFunc docexpr rowexpr _ _ _ => do
    blocker .functionScans
    expr? sess docexpr
    expr? sess rowexpr
  | _ => throw (notYet "this FROM item is not supported through the router yet"
      "rewrite the query without it, or run it against one shard's database directly")
termination_by n => 4 * sizeOf n + 5
decreasing_by
  all_goals
    try cases j
    simp
    omega

def exprs (sess : Session) : List Node → Walk Unit
  | [] => pure ()
  | n :: rest => do
    expr sess n
    exprs sess rest
termination_by ns => 4 * sizeOf ns
decreasing_by
  all_goals
    have := one_le_sizeOf rest
    simp only [List.cons.sizeOf_spec]
    omega

def expr? (sess : Session) : Option Node → Walk Unit
  | none => pure ()
  | some n => expr sess n
termination_by n => 4 * sizeOf n + 5

/-- The subqueries of an expression. The visitor stops at each: what the query is compared
with is not looked into. -/
def expr (sess : Session) : Node → Walk Unit
  | .subLink _ query => do
    blocker .subqueries
    nestedStatement sess query
  | n => exprs sess n.children
termination_by n => 4 * sizeOf n + 5
decreasing_by
  · simp
    omega
  · have := n.sizeOf_children
    omega

def whereClause (sess : Session) (scope : Scope) : Option Node → Walk Unit
  | none => pure ()
  | some n => conjuncts sess scope n
termination_by n => 4 * sizeOf n + 5

/-- The conjuncts of a condition, one after the other. -/
def conjuncts (sess : Session) (scope : Scope) : Node → Walk Unit
  | .boolExpr .and args => conjunctsOf sess scope args
  | n => conjunct sess scope n
termination_by n => 4 * sizeOf n + 7

def conjunctsOf (sess : Session) (scope : Scope) : List Node → Walk Unit
  | [] => pure ()
  | n :: rest => do
    conjuncts sess scope n
    conjunctsOf sess scope rest
termination_by ns => 4 * sizeOf ns
decreasing_by
  all_goals
    have := one_le_sizeOf rest
    simp only [List.cons.sizeOf_spec]
    omega

/-- One conjunct: a key equality, a key predicate, or something with subqueries in it. -/
def conjunct (sess : Session) (scope : Scope) : Node → Walk Unit
  | .aExpr .op ["="] lexpr rexpr => do
    refuseCastKey (← get) lexpr scope
    refuseCastKey (← get) rexpr scope
    let w ← get
    match keyColumn? w lexpr scope, keyColumn? w rexpr scope with
    | some (l, i), some (r, j) =>
      modify fun w => if l.shardKey = r.shardKey then w.unify i j else w
    | some (_, i), none =>
      if w.outerQuals then expr sess (.aExpr .op ["="] lexpr rexpr) else term sess i rexpr false
    | none, some (_, j) =>
      if w.outerQuals then expr sess (.aExpr .op ["="] lexpr rexpr) else term sess j lexpr false
    | none, none => expr sess (.aExpr .op ["="] lexpr rexpr)
  | .aExpr .isIn ["="] lexpr rexpr => do
    let w ← get
    if w.outerQuals then expr sess (.aExpr .isIn ["="] lexpr rexpr)
    else
      refuseCastKey w lexpr scope
      match keyColumn? w lexpr scope with
      | some (_, i) => term sess i rexpr true
      | none => expr sess (.aExpr .isIn ["="] lexpr rexpr)
  | n => expr sess n
termination_by n => 4 * sizeOf n + 6
decreasing_by
  all_goals
    simp
    try omega

/-- A key predicate recorded for a relation. Where it does not route, its value is looked
through for subqueries. -/
def term (sess : Session) (i : Nat) (value : Option Node) (list : Bool) : Walk Unit := do
  match ← termOf value list with
  | some t => modify fun w => { w with terms := w.terms ++ [(i, t)] }
  | none => expr? sess value
termination_by 4 * sizeOf value + 6

end

end PgShard.Planner
