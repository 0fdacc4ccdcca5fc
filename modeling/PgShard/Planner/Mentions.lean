import PgShard.Planner.Statement

/-!
# The tables a statement mentions

PostgreSQL takes a table name to a WITH item that is visible where the name stands, and
otherwise to the catalog. The scan below goes over a whole statement with that scoping and
notes beside each name how the planner's walk gets there: whether a clause the walk passes
over lies in between, and whether a WITH item of the same name came before it in the walk.
-/

namespace PgShard.Planner

/-- How the walk reaches a part of a statement: clause by clause, by the generic visitor that
only stops at subqueries, or not at all. -/
inductive Reach where
  | walked
  | visited
  | skipped
  deriving DecidableEq, Repr

namespace Reach

/-- The expressions of a part. -/
def inExpr : Reach → Reach
  | .walked => .visited
  | r => r

/-- The clauses of a part that the walk passes over. -/
def past : Reach → Reach
  | .walked => .skipped
  | r => r

/-- The query of a subquery expression. -/
def inSubLink : Reach → Reach
  | .skipped => .skipped
  | _ => .walked

/-- A nested statement: the walk goes into a query, and passes over anything else. -/
def into (r : Reach) : Node → Reach
  | .selectStmt _ | .setOpStmt _ => r
  | _ => r.past

@[simp] lemma inExpr_walked : walked.inExpr = visited := rfl
@[simp] lemma inExpr_visited : visited.inExpr = visited := rfl
@[simp] lemma inExpr_skipped : skipped.inExpr = skipped := rfl
@[simp] lemma past_walked : walked.past = skipped := rfl
@[simp] lemma past_visited : visited.past = visited := rfl
@[simp] lemma past_skipped : skipped.past = skipped := rfl
@[simp] lemma inSubLink_visited : visited.inSubLink = walked := rfl
@[simp] lemma inSubLink_skipped : skipped.inSubLink = skipped := rfl

@[simp] lemma into_visited (q : Node) : visited.into q = visited := by
  cases q <;> rfl

@[simp] lemma into_skipped (q : Node) : skipped.into q = skipped := by
  cases q <;> rfl

end Reach

/-- What the scan comes by: a WITH item the walk passes, or a table name. `shadowed` when
PostgreSQL takes the name to a WITH item, `reached` when the walk looks it up. -/
inductive Event where
  | cte (name : String)
  | table (rv : RangeVar) (shadowed reached : Bool)
  deriving DecidableEq, Repr

def cteNames (ctes : List Node) : List String :=
  ctes.filterMap fun
    | .commonTableExpr name _ _ => some name
    | _ => none

/-- What the first item of a WITH clause sees: under RECURSIVE every item sees all of them. -/
def itemScope (wc : Option (WithClause Node)) (scope : List String) : List String :=
  match wc with
  | none => scope
  | some w => if w.recursive then cteNames w.ctes ++ scope else scope

/-- What the statement under a WITH clause sees. -/
def stmtScope (wc : Option (WithClause Node)) (scope : List String) : List String := cteNames (ctesOf wc) ++ scope

/-- The table a statement writes: never a WITH item. -/
def written (rv : RangeVar) (reached : Bool) : List Event := [.table rv false reached]

mutual

/-- The table names beneath a node, with what PostgreSQL sees there as `scope`. -/
def scan (reach : Reach) (scope : List String) : Node → List Event
  | .rangeVar rv => [.table rv (rv.isCte scope) (reach = .walked)]
  | .subLink t q => scan (reach.inSubLink.into q) scope q ++ scan? .skipped scope t
  | .joinExpr j =>
    scan reach scope j.larg ++ scan reach scope j.rarg ++ scan? reach.inExpr scope j.quals
  | .rangeSubselect q _ => scan (reach.into q) scope q
  | .rangeFunction fs _ => scans reach.inExpr scope fs
  | .rangeTableSample r args rep =>
    scan reach scope r ++ scans reach.inExpr scope args ++ scan? reach.past scope rep
  | .rangeTableFunc d r ns cs _ =>
    scan? reach.inExpr scope d ++ scan? reach.inExpr scope r ++ scans reach.past scope ns ++ scans reach.past scope cs
  | .selectStmt s =>
    scanWith reach (itemScope s.withClause scope) (ctesOf s.withClause) ++
      scans reach (stmtScope s.withClause scope) s.fromClause ++
      scan? reach.inExpr (stmtScope s.withClause scope) s.whereClause ++
      scans reach.inExpr (stmtScope s.withClause scope) s.targetList ++
      scan? reach.inExpr (stmtScope s.withClause scope) s.havingClause ++
      scans reach.inExpr (stmtScope s.withClause scope) s.valuesLists ++
      -- the clauses from here on are never looked into
      scans reach.past (stmtScope s.withClause scope) s.distinctClause ++
      scans reach.past (stmtScope s.withClause scope) s.groupClause ++
      scans reach.past (stmtScope s.withClause scope) s.windowClause ++
      scans reach.past (stmtScope s.withClause scope) s.sortClause ++
      scan? reach.past (stmtScope s.withClause scope) s.limitOffset ++
      scan? reach.past (stmtScope s.withClause scope) s.limitCount
  | .setOpStmt s =>
    scanWith reach (itemScope s.withClause scope) (ctesOf s.withClause) ++
      scan (reach.into s.larg) (stmtScope s.withClause scope) s.larg ++
      scan (reach.into s.rarg) (stmtScope s.withClause scope) s.rarg ++
      scans reach.past (stmtScope s.withClause scope) s.sortClause ++
      scan? reach.past (stmtScope s.withClause scope) s.limitOffset ++
      scan? reach.past (stmtScope s.withClause scope) s.limitCount
  | .insertStmt s =>
    scanWith reach.past (itemScope s.withClause scope) (ctesOf s.withClause) ++ written s.relation false ++
      scan? reach.past (stmtScope s.withClause scope) s.selectStmt ++
      scans reach.past (stmtScope s.withClause scope) s.conflictExprs ++
      scans reach.past (stmtScope s.withClause scope) s.returningClause
  | .updateStmt s =>
    scanWith reach.past (itemScope s.withClause scope) (ctesOf s.withClause) ++ written s.relation false ++
      scans reach.past (stmtScope s.withClause scope) s.fromClause ++
      scan? reach.past (stmtScope s.withClause scope) s.whereClause ++
      scans reach.past (stmtScope s.withClause scope) s.targetList ++
      scans reach.past (stmtScope s.withClause scope) s.returningClause
  | .deleteStmt s =>
    scanWith reach.past (itemScope s.withClause scope) (ctesOf s.withClause) ++ written s.relation false ++
      scans reach.past (stmtScope s.withClause scope) s.usingClause ++
      scan? reach.past (stmtScope s.withClause scope) s.whereClause ++
      scans reach.past (stmtScope s.withClause scope) s.returningClause
  | .mergeStmt s =>
    scanWith reach.past (itemScope s.withClause scope) (ctesOf s.withClause) ++ written s.relation false ++
      scan reach.past (stmtScope s.withClause scope) s.sourceRelation ++
      scan? reach.past (stmtScope s.withClause scope) s.joinCondition ++
      scans reach.past (stmtScope s.withClause scope) s.whenClauses ++
      scans reach.past (stmtScope s.withClause scope) s.returningClause
  | n => scans reach.past scope n.children
termination_by n => 4 * sizeOf n + 5
decreasing_by
  all_goals
    first
    | have := sizeOf_ctesOf s.withClause
      cases s
      simp at *
      omega
    | have := n.sizeOf_children
      omega
    | cases j
      simp
      omega
    | simp <;> omega

def scan? (reach : Reach) (scope : List String) : Option Node → List Event
  | none => []
  | some n => scan reach scope n
termination_by n => 4 * sizeOf n + 5

def scans (reach : Reach) (scope : List String) : List Node → List Event
  | [] => []
  | n :: rest => scan reach scope n ++ scans reach scope rest
termination_by ns => 4 * sizeOf ns
decreasing_by
  all_goals
    have := one_le_sizeOf rest
    simp only [List.cons.sizeOf_spec]
    omega

/-- The items of a WITH clause; `scope` is what the next of them sees. -/
def scanWith (reach : Reach) (scope : List String) : List Node → List Event
  | [] => []
  | .commonTableExpr name _ q :: rest =>
    (if reach = .walked then [.cte name] else []) ++ scan (reach.into q) scope q ++ scanWith reach (name :: scope) rest
  | n :: rest => scan reach.past scope n ++ scanWith reach scope rest
termination_by ns => 4 * sizeOf ns
decreasing_by
  all_goals
    have := one_le_sizeOf rest
    simp only [List.cons.sizeOf_spec, Node.commonTableExpr.sizeOf_spec]
    omega

end

/-- The query of an INSERT. Of a VALUES list only the rows are looked into. -/
def scanSource (scope : List String) : Option Node → List Event
  | some (.selectStmt s) =>
    if s.valuesLists = [] then scan .walked scope (.selectStmt s)
    else
      scanWith .skipped (itemScope s.withClause scope) (ctesOf s.withClause) ++
        scans .visited (stmtScope s.withClause scope) s.valuesLists ++
        scans .skipped (stmtScope s.withClause scope) [s.fromClause, s.whereClause.toList,
          s.targetList, s.havingClause.toList, s.distinctClause, s.groupClause, s.windowClause,
          s.sortClause, s.limitOffset.toList, s.limitCount.toList].flatten
  | some q => scan (Reach.walked.into q) scope q
  | none => []

/-- The scan of a statement the way the walk goes over it. -/
def scanStatement (sess : Session) : Node → List Event
  | .insertStmt s =>
    scanWith .walked (itemScope s.withClause []) (ctesOf s.withClause) ++ written s.relation true ++
      scanSource (stmtScope s.withClause []) s.selectStmt ++
      scans .skipped (stmtScope s.withClause []) s.conflictExprs ++
      scans .visited (stmtScope s.withClause []) s.returningClause
  | .updateStmt s =>
    scanWith .walked (itemScope s.withClause []) (ctesOf s.withClause) ++ written s.relation true ++
      scans .walked (stmtScope s.withClause []) s.fromClause ++
      scan? .visited (stmtScope s.withClause []) s.whereClause ++
      scans .visited (stmtScope s.withClause []) s.targetList ++
      scans .visited (stmtScope s.withClause []) s.returningClause
  | .deleteStmt s =>
    scanWith .walked (itemScope s.withClause []) (ctesOf s.withClause) ++ written s.relation true ++
      scans .walked (stmtScope s.withClause []) s.usingClause ++
      scan? .visited (stmtScope s.withClause []) s.whereClause ++
      scans .visited (stmtScope s.withClause []) s.returningClause
  | q =>
    -- a bare nextval is answered without a walk
    scan (if nextvalName sess q ≠ "" then .skipped else Reach.walked.into q) [] q

/-- One table name of a statement. `taken` when a WITH item of that name came before it. -/
structure Mention where
  rv : RangeVar
  shadowed : Bool
  reached : Bool
  taken : Bool
  deriving DecidableEq, Repr

/-- The table names among the events, `seen` the names of the WITH items passed so far. -/
def mentionsFrom (seen : List String) : List Event → List Mention
  | [] => []
  | .cte name :: rest => mentionsFrom (name :: seen) rest
  | .table rv shadowed reached :: rest =>
    ⟨rv, shadowed, reached, rv.isCte seen⟩ :: mentionsFrom seen rest

/-- The table names of a statement. -/
def mentions (sess : Session) (node : Node) : List Mention := mentionsFrom [] (scanStatement sess node)

/-- The table names PostgreSQL takes to the catalog. -/
def catalogRefs (sess : Session) (node : Node) : List RangeVar :=
  ((mentions sess node).filter fun n => !n.shadowed).map (·.rv)

/-- Every table name PostgreSQL takes to the catalog stands where the walk looks it up, and no
WITH item of its name came before it. -/
def Covered (sess : Session) (node : Node) : Prop :=
  ∀ n ∈ mentions sess node, n.shadowed = false → n.reached = true ∧ n.taken = false

end PgShard.Planner
