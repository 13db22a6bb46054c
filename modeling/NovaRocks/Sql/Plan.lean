import NovaRocks.Sql.Eval

/-!
The logical plan and the names each operator offers to the one above it. A
scope maps a reference to the position of its value in the operator's output
row, as the fragment builder registers it: a later registration of the same
name overrides an earlier one, except that a join keeps the left column for an
unqualified name both inputs have.
-/
namespace NovaRocks

structure OutputColumn where
  name : String
  dataType : DataType
  nullable : Bool
  deriving DecidableEq

structure TableDef where
  name : String
  columns : List OutputColumn
  /-- Row-lineage pseudo columns, offered whatever the scan is asked for. -/
  icebergRowLineageMetadataColumns : List OutputColumn
  /-- What the equality-delete files of the table compare. -/
  equalityDeleteColumns : List String
  deriving DecidableEq

inductive JoinKind where
  | inner | leftOuter | rightOuter | fullOuter | cross
  | leftSemi | rightSemi | leftAnti | rightAnti
  deriving DecidableEq

structure ProjectItem where
  expr : TypedExpr
  outputName : String

structure AggregateCall where
  name : String
  args : List TypedExpr
  distinct : Bool
  resultType : DataType
  orderBy : List SortItem

structure WindowExpr where
  name : String
  args : List TypedExpr
  distinct : Bool
  partitionBy : List TypedExpr
  orderBy : List SortItem
  windowFrame : Option WindowFrame
  resultType : DataType
  outputName : String

structure ScanNode where
  database : String
  table : TableDef
  aliasName : Option String
  columns : List OutputColumn
  predicates : List TypedExpr
  requiredColumns : Option (List String)

/-- A scan of all columns of a table of integers. -/
def ScanNode.whole (table : String) (aliasName : Option String) (names : List String) : ScanNode :=
  let columns := names.map fun c => (⟨c, .int64, true⟩ : OutputColumn)
  ⟨"db", ⟨table, columns, [], []⟩, aliasName, columns, [], none⟩

structure GenerateSeriesNode where
  start : Int
  stop : Int
  step : Int
  columnName : String
  aliasName : Option String

/-- Replication levels of ROLLUP, CUBE and GROUPING SETS. -/
structure RepeatInfo where
  repeatColumnRefList : List (List String)
  groupingIds : List Nat
  allRollupColumns : List String
  groupingKeyAliases : List (String × String)
  groupingFnArgs : List (String × List String)

inductive LogicalPlan where
  | scan (node : ScanNode)
  | filter (input : LogicalPlan) (predicate : TypedExpr)
  | project (input : LogicalPlan) (items : List ProjectItem)
  | aggregate (input : LogicalPlan) (groupBy : List TypedExpr)
      (aggregates : List AggregateCall) (outputColumns : List OutputColumn)
  | join (left right : LogicalPlan) (joinType : JoinKind) (condition : Option TypedExpr)
  | sort (input : LogicalPlan) (items : List SortItem)
  | limit (input : LogicalPlan) (limit offset : Option Nat)
  | union (inputs : List LogicalPlan) (all : Bool)
  | intersect (inputs : List LogicalPlan)
  | except (inputs : List LogicalPlan)
  | values (rows : List (List TypedExpr)) (columns : List OutputColumn)
  | generateSeries (node : GenerateSeriesNode)
  | window (input : LogicalPlan) (windowExprs : List WindowExpr)
      (outputColumns : List OutputColumn)
  | subqueryAlias (input : LogicalPlan) (aliasName : String) (outputColumns : List OutputColumn)
  | repeat (input : LogicalPlan) (info : RepeatInfo)
  | cteAnchor (cteId : Nat) (produce consumer : LogicalPlan)
  | cteProduce (cteId : Nat) (input : LogicalPlan) (outputColumns : List OutputColumn)
  | cteConsume (cteId : Nat) (aliasName : String) (outputColumns : List OutputColumn)

abbrev Scope := QualifiedRef → Option Nat

namespace Scope

def empty : Scope := fun _ => none

def resolves (s : Scope) (r : QualifiedRef) : Bool :=
  (s r).isSome

/-- Registrations in order; the last one of a reference counts. -/
def ofBindings (bindings : List (QualifiedRef × Nat)) : Scope :=
  fun r => (bindings.reverse.find? fun b => b.1 = r).map Prod.snd

/-- Join output: right columns sit behind the `width` left ones. -/
def merge (width : Nat) (left right : Scope) : Scope := fun r =>
  match r.1 with
  | none => (left r).or ((right r).map (width + ·))
  | some _ => ((right r).map (width + ·)).or (left r)

@[simp] theorem resolves_merge (width : Nat) (left right : Scope) (r : QualifiedRef) :
    (merge width left right).resolves r = (left.resolves r || right.resolves r) := by
  obtain ⟨q,c⟩ := r
  cases q with
  | none => simp [merge, resolves]
  | some q => simp [merge, resolves, Bool.or_comm]

end Scope

variable [CaseFolding]

def columnNames (columns : List OutputColumn) : List String :=
  columns.map fun c => lower c.name

/-- The name under which a grouping key is offered above the aggregation. -/
def displayName (i : Interp) (e : TypedExpr) : String :=
  match e.kind with
  | .columnRef _ c => c
  | kind => i.label kind

def AggregateCall.kind (call : AggregateCall) : ExprKind :=
  .aggregateCall call.name call.args call.distinct call.orderBy

/-- A column reference that keeps its qualified spelling above the operator. -/
def qualifiedAlias (e : TypedExpr) (slot : Nat) : List (QualifiedRef × Nat) :=
  match e.kind with
  | .columnRef (some q) c => [((some (lower q), lower c), slot)]
  | _ => []

def namedBindings (qualifiers : List String) (names : List String) : List (QualifiedRef × Nat) :=
  names.zipIdx.flatMap fun (name, slot) =>
    ((none, name), slot) :: qualifiers.map fun q => ((some q, name), slot)

/-- The table columns a scan emits, then the pseudo columns. What the equality
deletes compare is added to the columns asked for. -/
def ScanNode.emitted (node : ScanNode) : List String :=
  let names := columnNames node.table.columns
  let kept := match node.requiredColumns with
    | none => names
    | some required =>
      names.filter fun c => ((required ++ node.table.equalityDeleteColumns).map lower).contains c
  kept ++ columnNames node.table.icebergRowLineageMetadataColumns

def ScanNode.qualifiers (node : ScanNode) : List String :=
  match node.aliasName with
  | none => [lower node.table.name]
  | some a => [lower a, lower node.table.name]

def GenerateSeriesNode.qualifier (node : GenerateSeriesNode) : String :=
  lower (node.aliasName.getD "generate_series")

def projectBindings (items : List ProjectItem) : List (QualifiedRef × Nat) :=
  items.zipIdx.flatMap fun (item, slot) =>
    ((none, lower item.outputName), slot) :: qualifiedAlias item.expr slot

def aggregateBindings (i : Interp) (groupBy : List TypedExpr)
    (aggregates : List AggregateCall) : List (QualifiedRef × Nat) :=
  (groupBy.zipIdx.flatMap fun (e, slot) =>
    ((none, lower (displayName i e)), slot) :: qualifiedAlias e slot) ++
  aggregates.zipIdx.map fun (call, slot) =>
    ((none, lower (i.label call.kind)), groupBy.length + slot)

def RepeatInfo.virtualColumns (info : RepeatInfo) : List String :=
  if info.groupingFnArgs.isEmpty then []
  else "__grouping_id" :: info.groupingFnArgs.map fun f => lower f.1

/-- Folded names of the output row's cells, in order. -/
def orderedNames (i : Interp) : LogicalPlan → List String
  | .scan node => node.emitted
  | .filter input _ => orderedNames i input
  | .project _ items => items.map fun item => lower item.outputName
  | .aggregate _ groupBy aggregates _ =>
    (groupBy.map fun e => lower (displayName i e)) ++
      aggregates.map fun call => lower (i.label call.kind)
  | .join left right joinType _ =>
    match joinType with
    | .leftSemi | .leftAnti => orderedNames i left
    | .rightSemi | .rightAnti => orderedNames i right
    | _ => orderedNames i left ++ orderedNames i right
  | .sort input _ => orderedNames i input
  | .limit input _ _ => orderedNames i input
  | .union [] _ => []
  | .union (first :: _) _ => orderedNames i first
  | .intersect [] => []
  | .intersect (first :: _) => orderedNames i first
  | .except [] => []
  | .except (first :: _) => orderedNames i first
  | .values _ columns => columnNames columns
  | .generateSeries node => [lower node.columnName]
  | .window input windowExprs _ =>
    orderedNames i input ++ windowExprs.map fun w => lower w.outputName
  | .subqueryAlias input _ _ => orderedNames i input
  | .repeat input info => orderedNames i input ++ info.virtualColumns
  | .cteAnchor _ _ consumer => orderedNames i consumer
  | .cteProduce _ input _ => orderedNames i input
  | .cteConsume _ _ columns => columnNames columns

def width (i : Interp) (p : LogicalPlan) : Nat :=
  (orderedNames i p).length

/-- An alias adds a qualified spelling for each declared column it finds. -/
def aliasRef (qualifier : String) (columns : List String) (input : Scope) (r : QualifiedRef) : QualifiedRef :=
  if r.1 = some qualifier ∧ r.2 ∈ columns ∧ input.resolves (none, r.2) then (none, r.2) else r

/-- Spelling used above a repeat for the key behind a grouping alias. -/
def repeatRef (aliases : List (String × String)) (input : Scope) (r : QualifiedRef) : QualifiedRef :=
  match aliases.reverse.find? fun a =>
      r = (some "__repeat_group", lower a.1) ∧ input.resolves (none, lower a.2) with
  | some a => (none, lower a.2)
  | none => r

def scopeOf (i : Interp) : LogicalPlan → Scope
  | .scan node => .ofBindings (namedBindings node.qualifiers node.emitted)
  | .filter input _ => scopeOf i input
  | .project _ items => .ofBindings (projectBindings items)
  | .aggregate _ groupBy aggregates _ => .ofBindings (aggregateBindings i groupBy aggregates)
  | .join left right joinType _ =>
    match joinType with
    | .leftSemi | .leftAnti => scopeOf i left
    | .rightSemi | .rightAnti => scopeOf i right
    | _ => .merge (width i left) (scopeOf i left) (scopeOf i right)
  | .sort input _ => scopeOf i input
  | .limit input _ _ => scopeOf i input
  | .union inputs all => .ofBindings (namedBindings [] (orderedNames i (.union inputs all)))
  | .intersect inputs => .ofBindings (namedBindings [] (orderedNames i (.intersect inputs)))
  | .except inputs => .ofBindings (namedBindings [] (orderedNames i (.except inputs)))
  | .values _ columns => .ofBindings (namedBindings [] (columnNames columns))
  | .generateSeries node =>
    .ofBindings (namedBindings [node.qualifier] [lower node.columnName])
  | .window input windowExprs columns =>
    .ofBindings (namedBindings [] (orderedNames i (.window input windowExprs columns)))
  | .subqueryAlias input aliasName columns => fun r =>
    scopeOf i input (aliasRef (lower aliasName) (columnNames columns) (scopeOf i input) r)
  | .repeat input info => fun r =>
    (Scope.ofBindings ((namedBindings [] info.virtualColumns).map fun b =>
        (b.1, width i input + b.2)) r).or
      (scopeOf i input (repeatRef info.groupingKeyAliases (scopeOf i input) r))
  | .cteAnchor _ _ consumer => scopeOf i consumer
  | .cteProduce _ input _ => scopeOf i input
  | .cteConsume _ aliasName columns =>
    .ofBindings (namedBindings [lower aliasName] (columnNames columns))

def JoinKind.keepsBoth : JoinKind → Bool
  | .leftSemi | .leftAnti | .rightSemi | .rightAnti => false
  | _ => true

theorem scopeOf_join_both (i : Interp) (left right : LogicalPlan)
    (c : Option TypedExpr) (both : kind.keepsBoth = true) :
    scopeOf i (.join left right kind c) = .merge (width i left) (scopeOf i left) (scopeOf i right) := by
  cases kind <;> first | rfl | cases both

def inScope (i : Interp) (s : Scope) (e : TypedExpr) : Bool :=
  (reads i e).all s.resolves

mutual
/-- The fragment builder accepts the plan: each expression finds its columns
in the operator below it, and set operations line up. -/
def wellScoped (i : Interp) : LogicalPlan → Bool
  | .scan node => node.predicates.all (inScope i (scopeOf i (.scan node)))
  | .filter input predicate => wellScoped i input && inScope i (scopeOf i input) predicate
  | .project input items =>
    wellScoped i input && items.all fun item => inScope i (scopeOf i input) item.expr
  | .aggregate input groupBy aggregates _ =>
    wellScoped i input && groupBy.all (inScope i (scopeOf i input)) &&
      aggregates.all fun call =>
        (call.args ++ call.orderBy.map SortItem.expr).all (inScope i (scopeOf i input))
  | .join left right _ condition =>
    wellScoped i left && wellScoped i right &&
      condition.toList.all
        (inScope i (.merge (width i left) (scopeOf i left) (scopeOf i right)))
  | .sort input items =>
    wellScoped i input && items.all fun item => inScope i (scopeOf i input) item.expr
  | .limit input _ _ => wellScoped i input
  | .union inputs all =>
    wellScopedInputs i (orderedNames i (.union inputs all)).length inputs
  | .intersect inputs =>
    wellScopedInputs i (orderedNames i (.intersect inputs)).length inputs
  | .except inputs =>
    wellScopedInputs i (orderedNames i (.except inputs)).length inputs
  | .values exprRows columns =>
    exprRows.all fun exprs =>
      exprs.length == columns.length && exprs.all (inScope i .empty)
  | .generateSeries _ => true
  | .window input windowExprs _ =>
    wellScoped i input && windowExprs.all fun e =>
      (e.args ++ e.partitionBy ++ e.orderBy.map SortItem.expr).all (inScope i (scopeOf i input))
  | .subqueryAlias input _ _ => wellScoped i input
  | .repeat input _ => wellScoped i input
  | .cteAnchor _ produce consumer => wellScoped i produce && wellScoped i consumer
  | .cteProduce _ input _ => wellScoped i input
  | .cteConsume _ _ _ => true
def wellScopedInputs (i : Interp) (arity : Nat) : List LogicalPlan → Bool
  | [] => true
  | p :: rest => wellScoped i p && width i p == arity && wellScopedInputs i arity rest
end

end NovaRocks
