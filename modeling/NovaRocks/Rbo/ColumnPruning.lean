import NovaRocks.Rbo.Utils

/-!
Column pruning. Each operator tells its input which bare names it needs, and a
scan emits only those. `none` stands for no restriction. The rule never drops
an operator or an output expression; only what the scans emit changes.
-/
namespace NovaRocks
open List
variable [CaseFolding]

/-- Names the parent needs together with further names. Without a restriction
from the parent only the further names remain. -/
def mergeNeeded (parent : Option (List String)) (extra : List String) : List String :=
  parent.getD [] ++ extra

def columnRefsOf (es : List TypedExpr) : List String :=
  es.flatMap collectColumnRefs

/-- Asked for nothing, a scan still emits its first column. -/
def ScanNode.prunedColumns (node : ScanNode) (needed : List String) : List String :=
  let required := needed ++ columnRefsOf node.predicates
  match node.columns.filter fun c => required.contains (lower c.name) with
  | [] => node.columns.head?.toList.map OutputColumn.name
  | pruned => pruned.map OutputColumn.name

def ScanNode.prune (node : ScanNode) (needed : List String) : ScanNode :=
  { node with requiredColumns := some (node.prunedColumns needed) }

def projectNeeded (needed : Option (List String)) (items : List ProjectItem) : List String :=
  let dominated := fun (item : ProjectItem) =>
    needed.all fun names => names.contains (lower item.outputName)
  columnRefsOf ((items.filter dominated).map ProjectItem.expr)

def AggregateCall.operands (call : AggregateCall) : List TypedExpr :=
  call.args ++ call.orderBy.map SortItem.expr

def aggregateNeeded (groupBy : List TypedExpr) (aggregates : List AggregateCall) : List String :=
  columnRefsOf (groupBy ++ aggregates.flatMap AggregateCall.operands)

def alsoNeeded (needed : Option (List String)) (es : List TypedExpr) : Option (List String) :=
  needed.map fun names => names ++ columnRefsOf es

mutual
def pruneInner (needed : Option (List String)) : LogicalPlan → LogicalPlan
  | .scan node =>
    match needed with
    | none => .scan node
    | some names => .scan (node.prune names)
  | .filter input predicate =>
    .filter (pruneInner (some (mergeNeeded needed (collectColumnRefs predicate))) input) predicate
  | .project input items => .project (pruneInner (some (projectNeeded needed items)) input) items
  | .aggregate input groupBy aggregates columns =>
    .aggregate (pruneInner (some (aggregateNeeded groupBy aggregates)) input)
      groupBy aggregates columns
  | .join left right kind condition =>
    .join (pruneInner (alsoNeeded needed condition.toList) left)
      (pruneInner (alsoNeeded needed condition.toList) right) kind condition
  | .sort input items =>
    .sort (pruneInner (alsoNeeded needed (items.map SortItem.expr)) input) items
  | .limit input count offset => .limit (pruneInner needed input) count offset
  | .union inputs all => .union (pruneInputs inputs) all
  | .intersect inputs => .intersect (pruneInputs inputs)
  | .except inputs => .except (pruneInputs inputs)
  | .values exprRows columns => .values exprRows columns
  | .generateSeries node => .generateSeries node
  | .window input windowExprs columns => .window (pruneInner none input) windowExprs columns
  | .subqueryAlias input aliasName columns =>
    .subqueryAlias (pruneInner none input) aliasName columns
  | .repeat input info => .repeat (pruneInner none input) info
  | .cteAnchor cteId produce consumer =>
    .cteAnchor cteId (pruneInner none produce) (pruneInner needed consumer)
  | .cteProduce cteId input columns => .cteProduce cteId (pruneInner none input) columns
  | .cteConsume cteId aliasName columns => .cteConsume cteId aliasName columns
/-- Set operations line their inputs up by position and restrict none. -/
def pruneInputs : List LogicalPlan → List LogicalPlan
  | [] => []
  | p :: rest => pruneInner none p :: pruneInputs rest
end

end NovaRocks
