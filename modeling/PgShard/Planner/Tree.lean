import Mathlib

/-!
# The parse tree the planner reads

One type of node, as the parser hands it over: a child that is absent is `none`, a
clause that is absent is the empty list. A node with a constructor of its own is one
some part of the planner looks at by kind; every other expression node is `other`,
which is all the generic visitor needs to know about it.
-/

namespace PgShard.Planner

/-- The name after AS, with the column names some FROM items give after it. -/
structure Alias where
  aliasname : String
  colnames : List String := []
  deriving DecidableEq, Repr

/-- A table name in a statement. `location` is its offset in the text, which tells two
mentions of one table apart. -/
structure RangeVar where
  catalogname : String := ""
  schemaname : String := ""
  relname : String
  aliasClause : Option Alias := none
  location : Nat := 0
  deriving DecidableEq, Repr

/-- One component of a column reference. -/
inductive Field where
  | name (s : String)
  | star
  deriving DecidableEq, Repr

/-- A constant. The grammar keeps an integer literal beyond 32 bits as the text of a
float, and so does `fval`. -/
inductive Const where
  | ival (i : Int)
  | fval (s : String)
  | sval (s : String)
  | boolval (b : Bool)
  | null
  deriving DecidableEq, Repr

/-- The type a cast names. A modifier that is not a constant is `none`. -/
structure TypeName where
  names : List String
  typmods : List (Option Const) := []
  deriving DecidableEq, Repr

inductive AExprKind where
  | op
  | isIn
  | other
  deriving DecidableEq, Repr

inductive BoolExprType where
  | and
  | or
  | not
  deriving DecidableEq, Repr

inductive JoinType where
  | inner
  | left
  | right
  | full
  deriving DecidableEq, Repr

inductive SetOperation where
  | union
  | intersect
  | except
  deriving DecidableEq, Repr

/-- The WITH clause: its items, and whether it says RECURSIVE. -/
structure WithClause (α : Type) where
  ctes : List α
  recursive : Bool := false

/-- A SELECT that is not a set operation. -/
structure SelectStmt (α : Type) where
  withClause : Option (WithClause α) := none
  distinctClause : List α := []
  intoClause : Option RangeVar := none
  targetList : List α := []
  fromClause : List α := []
  whereClause : Option α := none
  groupClause : List α := []
  havingClause : Option α := none
  windowClause : List α := []
  valuesLists : List α := []
  sortClause : List α := []
  limitOffset : Option α := none
  limitCount : Option α := none
  lockingClause : Bool := false

/-- UNION, INTERSECT or EXCEPT of two queries. -/
structure SetOpStmt (α : Type) where
  withClause : Option (WithClause α) := none
  op : SetOperation
  all : Bool := false
  larg : α
  rarg : α
  sortClause : List α := []
  limitOffset : Option α := none
  limitCount : Option α := none
  lockingClause : Bool := false

structure InsertStmt (α : Type) where
  withClause : Option (WithClause α) := none
  relation : RangeVar
  cols : List String := []
  selectStmt : Option α := none
  /-- The columns ON CONFLICT DO UPDATE assigns. -/
  conflictCols : List String := []
  /-- Every expression of the ON CONFLICT clause: the arbiter's, the assignments', the
  conditions'. -/
  conflictExprs : List α := []
  returningClause : List α := []

structure UpdateStmt (α : Type) where
  withClause : Option (WithClause α) := none
  relation : RangeVar
  targetList : List α := []
  fromClause : List α := []
  whereClause : Option α := none
  returningClause : List α := []

structure DeleteStmt (α : Type) where
  withClause : Option (WithClause α) := none
  relation : RangeVar
  usingClause : List α := []
  whereClause : Option α := none
  returningClause : List α := []

/-- MERGE reaches the planner only as the body of a WITH item. -/
structure MergeStmt (α : Type) where
  withClause : Option (WithClause α) := none
  relation : RangeVar
  sourceRelation : α
  joinCondition : Option α := none
  whenClauses : List α := []
  returningClause : List α := []

structure JoinExpr (α : Type) where
  jointype : JoinType := .inner
  isNatural : Bool := false
  usingClause : List String := []
  larg : α
  rarg : α
  quals : Option α := none
  aliasClause : Option Alias := none

inductive Node where
  | columnRef (fields : List Field)
  | paramRef (number : Nat)
  | aConst (val : Const)
  | typeCast (arg : Node) (typeName : TypeName)
  | aExpr (kind : AExprKind) (name : List String) (lexpr rexpr : Option Node)
  | boolExpr (boolop : BoolExprType) (args : List Node)
  | subLink (testexpr : Option Node) (subselect : Node)
  | list (items : List Node)
  | resTarget (name : String) (val : Option Node)
  | funcCall (funcname : List String) (windowed : Bool) (args : List Node)
  | jsonAgg (windowed : Bool) (args : List Node)
  | setToDefault
  | other (children : List Node)
  | rangeVar (rv : RangeVar)
  | joinExpr (j : JoinExpr Node)
  | rangeSubselect (subquery : Node) (aliasClause : Option Alias)
  | rangeFunction (functions : List Node) (aliasClause : Option Alias)
  | rangeTableSample (relation : Node) (args : List Node) (repeatable : Option Node)
  | rangeTableFunc (docexpr rowexpr : Option Node) (namespaces columns : List Node) (aliasClause : Option Alias)
  | jsonTable (children : List Node) (aliasClause : Option Alias)
  | commonTableExpr (ctename : String) (colnames : List String) (ctequery : Node)
  | selectStmt (s : SelectStmt Node)
  | setOpStmt (s : SetOpStmt Node)
  | insertStmt (s : InsertStmt Node)
  | updateStmt (s : UpdateStmt Node)
  | deleteStmt (s : DeleteStmt Node)
  | mergeStmt (s : MergeStmt Node)

/-- The items of an optional WITH clause. -/
def ctesOf {α : Type} (wc : Option (WithClause α)) : List α :=
  match wc with
  | none => []
  | some w => w.ctes

/-- The nodes directly beneath a node, which is where the generic visitor goes next. The
program visits them by reflection, in no order it states. -/
def Node.children : Node → List Node
  | .columnRef _ | .paramRef _ | .aConst _ | .setToDefault | .rangeVar _ => []
  | .typeCast arg _ => [arg]
  | .aExpr _ _ l r => [l.toList, r.toList].flatten
  | .boolExpr _ args => args
  | .subLink t q => q :: t.toList
  | .list items => items
  | .resTarget _ val => val.toList
  | .funcCall _ _ args => args
  | .jsonAgg _ args => args
  | .other cs => cs
  | .joinExpr j => j.larg :: j.rarg :: j.quals.toList
  | .rangeSubselect q _ => [q]
  | .rangeFunction fs _ => fs
  | .rangeTableSample r args rep => r :: [args, rep.toList].flatten
  | .rangeTableFunc d r ns cs _ => [d.toList, r.toList, ns, cs].flatten
  | .jsonTable cs _ => cs
  | .commonTableExpr _ _ q => [q]
  | .selectStmt s => [ctesOf s.withClause, s.fromClause, s.whereClause.toList, s.targetList,
      s.havingClause.toList, s.valuesLists, s.distinctClause, s.groupClause, s.windowClause,
      s.sortClause, s.limitOffset.toList, s.limitCount.toList].flatten
  | .setOpStmt s => [ctesOf s.withClause, [s.larg, s.rarg], s.sortClause,
      s.limitOffset.toList, s.limitCount.toList].flatten
  | .insertStmt s => [ctesOf s.withClause, s.selectStmt.toList, s.conflictExprs, s.returningClause].flatten
  | .updateStmt s => [ctesOf s.withClause, s.fromClause, s.whereClause.toList, s.targetList, s.returningClause].flatten
  | .deleteStmt s => [ctesOf s.withClause, s.usingClause, s.whereClause.toList, s.returningClause].flatten
  | .mergeStmt s => [ctesOf s.withClause, [s.sourceRelation], s.joinCondition.toList,
      s.whenClauses, s.returningClause].flatten

section

variable {α : Type} [SizeOf α]

lemma one_le_sizeOf (xs : List α) : 1 ≤ sizeOf xs := by
  cases xs
  · simp
  · simp
    omega

lemma sizeOf_toList (o : Option α) : sizeOf o.toList ≤ sizeOf o + 1 := by
  cases o <;> simp

lemma sizeOf_flatten (xss : List (List α)) : sizeOf xss.flatten + xss.length = (xss.map sizeOf).sum + 1 := by
  induction xss with
  | nil => simp
  | cons xs xss ih =>
    have happ : sizeOf (xs ++ xss.flatten) + 1 = sizeOf xs + sizeOf xss.flatten := by
      clear ih
      induction xs with
      | nil => simp; omega
      | cons x xs ih => simp at *; omega
    simp at *
    omega

lemma sizeOf_flatten_le {xss : List (List α)} {n : Nat} (h : (xss.map sizeOf).sum < n + xss.length) :
    sizeOf xss.flatten ≤ n := by
  have := sizeOf_flatten xss
  omega

lemma sizeOf_ctesOf (wc : Option (WithClause α)) : sizeOf (ctesOf wc) ≤ sizeOf wc := by
  cases wc with
  | none => simp [ctesOf]
  | some w => cases w; simp [ctesOf]; omega

end

/-- What the recursions over the tree go down by: a node's children weigh no more than
the node and one. -/
lemma Node.sizeOf_children (n : Node) : sizeOf n.children ≤ sizeOf n + 1 := by
  cases n with
  | aExpr kind name l r =>
    have := sizeOf_toList l
    have := sizeOf_toList r
    apply sizeOf_flatten_le
    simp
    omega
  | subLink t q => have := sizeOf_toList t; simp [children]; omega
  | resTarget name val => have := sizeOf_toList val; simp [children]; omega
  | joinExpr j => have := sizeOf_toList j.quals; cases j; simp [children] at *; omega
  | rangeTableSample r args rep =>
    have := sizeOf_flatten [args, rep.toList]
    have := sizeOf_toList rep
    simp [children] at *
    omega
  | rangeTableFunc d r ns cs a =>
    have := sizeOf_toList d
    have := sizeOf_toList r
    apply sizeOf_flatten_le
    simp
    omega
  | selectStmt s =>
    have := sizeOf_ctesOf s.withClause
    have := sizeOf_toList s.whereClause
    have := sizeOf_toList s.havingClause
    have := sizeOf_toList s.limitOffset
    have := sizeOf_toList s.limitCount
    apply sizeOf_flatten_le
    cases s
    simp at *
    omega
  | setOpStmt s =>
    have := sizeOf_ctesOf s.withClause
    have := sizeOf_toList s.limitOffset
    have := sizeOf_toList s.limitCount
    apply sizeOf_flatten_le
    cases s
    simp at *
    omega
  | insertStmt s =>
    have := sizeOf_ctesOf s.withClause
    have := sizeOf_toList s.selectStmt
    apply sizeOf_flatten_le
    cases s
    simp at *
    omega
  | updateStmt s =>
    have := sizeOf_ctesOf s.withClause
    have := sizeOf_toList s.whereClause
    apply sizeOf_flatten_le
    cases s
    simp at *
    omega
  | deleteStmt s =>
    have := sizeOf_ctesOf s.withClause
    have := sizeOf_toList s.whereClause
    apply sizeOf_flatten_le
    cases s
    simp at *
    omega
  | mergeStmt s =>
    have := sizeOf_ctesOf s.withClause
    have := sizeOf_toList s.joinCondition
    apply sizeOf_flatten_le
    cases s
    simp at *
    omega
  | _ => simp [children] <;> omega

end PgShard.Planner
