import NovaRocks.Sql.Rows

/-!
Resolved queries and the plans the planner makes of them. A relation that is
not a subquery or a join, and a query body that is not a SELECT, is given by its
plan: the rewriting of subqueries uses it as it stands.
-/
namespace NovaRocks
variable [CaseFolding]

mutual
inductive Relation where
  | plan (p : LogicalPlan)
  | subquery (query : ResolvedQuery) (aliasName : String)
  | join (left right : Relation) (joinType : JoinKind) (condition : Option TypedExpr)
inductive QueryBody where
  | select (sel : ResolvedSelect)
  | plan (p : LogicalPlan)
structure ResolvedSelect where
  source : Option Relation
  filter : Option TypedExpr
  groupBy : List TypedExpr
  having : Option TypedExpr
  projection : List ProjectItem
  hasAggregation : Bool
  distinct : Bool
structure ResolvedQuery where
  body : QueryBody
  orderBy : List SortItem
  limit : Option Nat
  offset : Option Nat
  outputColumns : List OutputColumn
end

def AggregateCall.sameAs (a b : AggregateCall) : Bool :=
  a.name == b.name && a.distinct == b.distinct &&
    a.args.length == b.args.length && a.orderBy.length == b.orderBy.length &&
    ((a.args.zip b.args).all fun p => exprEq p.1 p.2) &&
    (a.orderBy.zip b.orderBy).all fun p =>
      p.1.asc == p.2.asc && p.1.nullsFirst == p.2.nullsFirst && exprEq p.1.expr p.2.expr

mutual
/-- The aggregate calls of an expression, outermost ones, in traversal order. -/
def aggregateCallsIn : TypedExpr → List AggregateCall
  | ⟨.aggregateCall name args distinct orderBy, t, _⟩ => [⟨name, args, distinct, t, orderBy⟩]
  | ⟨.binaryOp l _ r, _, _⟩ => aggregateCallsIn l ++ aggregateCallsIn r
  | ⟨.unaryOp _ e, _, _⟩ => aggregateCallsIn e
  | ⟨.functionCall _ args _, _, _⟩ => aggregateCallsInList args
  | ⟨.cast e _, _, _⟩ => aggregateCallsIn e
  | ⟨.case operand whenThen elseExpr, _, _⟩ =>
    aggregateCallsInOption operand ++ aggregateCallsInBranches whenThen ++
      aggregateCallsInOption elseExpr
  | ⟨.isNull e _, _, _⟩ => aggregateCallsIn e
  | ⟨.nested e, _, _⟩ => aggregateCallsIn e
  | ⟨.inList e list _, _, _⟩ => aggregateCallsIn e ++ aggregateCallsInList list
  | ⟨.between e low high _, _, _⟩ =>
    aggregateCallsIn e ++ aggregateCallsIn low ++ aggregateCallsIn high
  | ⟨.like e pattern _, _, _⟩ => aggregateCallsIn e ++ aggregateCallsIn pattern
  | ⟨.isTruthValue e _ _, _, _⟩ => aggregateCallsIn e
  | ⟨.windowCall _ args _ partitionBy orderBy _, _, _⟩ =>
    aggregateCallsInList args ++ aggregateCallsInList partitionBy ++ aggregateCallsInSort orderBy
  | ⟨.columnRef _ _, _, _⟩ | ⟨.literal _, _, _⟩ | ⟨.subqueryPlaceholder _ _ _, _, _⟩ => []
def aggregateCallsInList : List TypedExpr → List AggregateCall
  | [] => []
  | e :: rest => aggregateCallsIn e ++ aggregateCallsInList rest
def aggregateCallsInSort : List SortItem → List AggregateCall
  | [] => []
  | ⟨e, _, _⟩ :: rest => aggregateCallsIn e ++ aggregateCallsInSort rest
def aggregateCallsInOption : Option TypedExpr → List AggregateCall
  | none => []
  | some e => aggregateCallsIn e
def aggregateCallsInBranches : List (TypedExpr × TypedExpr) → List AggregateCall
  | [] => []
  | (w, t) :: rest => aggregateCallsIn w ++ aggregateCallsIn t ++ aggregateCallsInBranches rest
end

def collectAggregates (collected : List AggregateCall) (e : TypedExpr) : List AggregateCall :=
  (aggregateCallsIn e).foldl
    (fun acc call => if acc.any fun a => a.sameAs call then acc else acc ++ [call]) collected

mutual
def bareColumnRefs : TypedExpr → List TypedExpr
  | ⟨.columnRef q c, t, n⟩ => [⟨.columnRef q c, t, n⟩]
  | ⟨.binaryOp l _ r, _, _⟩ => bareColumnRefs l ++ bareColumnRefs r
  | ⟨.unaryOp _ e, _, _⟩ => bareColumnRefs e
  | ⟨.functionCall _ args _, _, _⟩ => bareColumnRefsList args
  | ⟨.cast e _, _, _⟩ => bareColumnRefs e
  | ⟨.nested e, _, _⟩ => bareColumnRefs e
  | ⟨.isNull e _, _, _⟩ => bareColumnRefs e
  | ⟨.case operand whenThen elseExpr, _, _⟩ =>
    bareColumnRefsOption operand ++ bareColumnRefsBranches whenThen ++
      bareColumnRefsOption elseExpr
  | _ => []
def bareColumnRefsList : List TypedExpr → List TypedExpr
  | [] => []
  | e :: rest => bareColumnRefs e ++ bareColumnRefsList rest
def bareColumnRefsOption : Option TypedExpr → List TypedExpr
  | none => []
  | some e => bareColumnRefs e
def bareColumnRefsBranches : List (TypedExpr × TypedExpr) → List TypedExpr
  | [] => []
  | (w, t) :: rest => bareColumnRefs w ++ bareColumnRefs t ++ bareColumnRefsBranches rest
end

def sameColumnRef (a b : TypedExpr) : Bool :=
  match a.kind, b.kind with
  | .columnRef q c, .columnRef q' c' => q == q' && c == c'
  | _, _ => false

/-- Columns of HAVING become grouping keys so that they pass the aggregation. -/
def collectNonAggColumnRefs (having : TypedExpr) (groupBy : List TypedExpr) : List TypedExpr :=
  (bareColumnRefs having).foldl
    (fun acc e => if (groupBy ++ acc).any (sameColumnRef e) then acc else acc ++ [e]) []

def projected (columns : List ProjectItem) : List OutputColumn :=
  columns.map fun item => ⟨item.outputName, item.expr.dataType, item.expr.nullable⟩

def projectItems (input : LogicalPlan) (items : List ProjectItem) : LogicalPlan :=
  if items.isEmpty then input else .project input items

def buildDistinct (input : LogicalPlan) (projection : List ProjectItem) : LogicalPlan :=
  .aggregate input
    (projection.map fun item =>
      ⟨.columnRef none item.outputName, item.expr.dataType, item.expr.nullable⟩)
    [] (projected projection)

def filterWith (input : LogicalPlan) : Option TypedExpr → LogicalPlan
  | none => input
  | some predicate => .filter input predicate

def planSelectOver (input : LogicalPlan) (sel : ResolvedSelect) : LogicalPlan :=
  let current := filterWith input sel.filter
  let current :=
    if sel.hasAggregation || !sel.groupBy.isEmpty then
      let extra := sel.having.elim [] fun having => collectNonAggColumnRefs having sel.groupBy
      let calls := (sel.projection.map ProjectItem.expr ++ sel.having.toList).foldl
        collectAggregates []
      let grouped := LogicalPlan.aggregate current (sel.groupBy ++ extra) calls
        (projected sel.projection)
      projectItems (filterWith grouped sel.having) sel.projection
    else projectItems current sel.projection
  if sel.distinct then buildDistinct current sel.projection else current

/-- Sort keys that are not output columns, as hidden columns. -/
def collectExtraSortItems (i : Interp) (orderBy : List SortItem) (output : List OutputColumn) :
    List ProjectItem :=
  orderBy.foldl (fun extra item =>
    let name := displayName i item.expr
    if (columnNames output).contains (lower name) ||
        (extra.map fun e => lower e.outputName).contains (lower name) then extra
    else extra ++ [⟨item.expr, name⟩]) []

def rewriteSortItems (i : Interp) (orderBy : List SortItem) (extra : List ProjectItem) : List SortItem :=
  orderBy.map fun item =>
    match extra.find? fun e => lower (displayName i e.expr) == lower (displayName i item.expr) with
    | some e => ⟨⟨.columnRef none e.outputName, item.expr.dataType, item.expr.nullable⟩,
        item.asc, item.nullsFirst⟩
    | none => item

def extendProjection (extra : List ProjectItem) : LogicalPlan → LogicalPlan
  | .project (.aggregate input groupBy aggregates columns) items =>
    .project (.aggregate input groupBy
      ((extra.map ProjectItem.expr).foldl collectAggregates aggregates) columns) (items ++ extra)
  | .project input items => .project input (items ++ extra)
  | plan => plan

def applyQueryModifiers (i : Interp) (body : LogicalPlan) (orderBy : List SortItem)
    (output : List OutputColumn) (limit offset : Option Nat) : LogicalPlan :=
  let extra := collectExtraSortItems i orderBy output
  let sorted :=
    if orderBy.isEmpty then body
    else .sort (extendProjection extra body) (rewriteSortItems i orderBy extra)
  let limited := if limit.isSome || offset.isSome then .limit sorted limit offset else sorted
  if extra.isEmpty then limited
  else .project limited (output.map fun c => ⟨⟨.columnRef none c.name, c.dataType, c.nullable⟩, c.name⟩)

mutual
def planRelation (i : Interp) : Relation → LogicalPlan
  | .plan p => p
  | .subquery query aliasName =>
    .subqueryAlias (planQuery i query) aliasName query.outputColumns
  | .join left right joinType condition =>
    .join (planRelation i left) (planRelation i right) joinType condition
def planSource (i : Interp) : Option Relation → LogicalPlan
  | none => .values [[]] []
  | some relation => planRelation i relation
def planSelect (i : Interp) : ResolvedSelect → LogicalPlan
  | ⟨source, filter, groupBy, having, projection, hasAggregation, distinct⟩ =>
    planSelectOver (planSource i source)
      ⟨none, filter, groupBy, having, projection, hasAggregation, distinct⟩
def planBody (i : Interp) : QueryBody → LogicalPlan
  | .select sel => planSelect i sel
  | .plan p => p
def planQuery (i : Interp) : ResolvedQuery → LogicalPlan
  | ⟨body, orderBy, limit, offset, output⟩ =>
    applyQueryModifiers i (planBody i body) orderBy output limit offset
end

end NovaRocks
