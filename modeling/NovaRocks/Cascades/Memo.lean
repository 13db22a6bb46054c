import NovaRocks.Sql.Rows

/-!
The memo of the cost-based search: groups of expressions that are meant to be
equivalent, each expression an operator over other groups. What an expression
stands for is a plan over the plans its groups stand for.
-/
namespace NovaRocks

abbrev GroupId := Nat
abbrev MExprId := Nat

structure LogicalAggregateOp where
  groupBy : List TypedExpr
  aggregates : List AggregateCall
  outputColumns : List OutputColumn

structure LogicalJoinOp where
  joinType : JoinKind
  condition : Option TypedExpr

inductive AggMode where
  | single | «local» | global | distinctGlobal | distinctLocal
  deriving DecidableEq

structure PhysicalHashAggregateOp where
  mode : AggMode
  groupBy : List TypedExpr
  aggregates : List AggregateCall
  outputColumns : List OutputColumn
  /-- For each call: merge the states of the phase below, or update from rows. -/
  isMerge : List Bool

/-- One stage over all rows, or a stage for each instance below a last one. -/
inductive TopNPhase where
  | finalStage | partialStage
  deriving DecidableEq

structure LogicalTopNOp where
  items : List SortItem
  limit : Option Int
  offset : Option Int
  phase : TopNPhase
  isSplit : Bool

inductive Operator where
  | logicalScan (node : ScanNode)
  | logicalFilter (predicate : TypedExpr)
  | logicalProject (items : List ProjectItem)
  | logicalAggregate (op : LogicalAggregateOp)
  | logicalJoin (op : LogicalJoinOp)
  | logicalSort (items : List SortItem)
  | logicalLimit (limit offset : Option Nat)
  | logicalWindow (windowExprs : List WindowExpr) (outputColumns : List OutputColumn)
  | logicalUnion (all : Bool)
  | logicalIntersect
  | logicalExcept
  | logicalValues (rows : List (List TypedExpr)) (columns : List OutputColumn)
  | logicalGenerateSeries (node : GenerateSeriesNode)
  | logicalSubqueryAlias (aliasName : String) (outputColumns : List OutputColumn)
  | logicalRepeat (info : RepeatInfo)
  | logicalCTEAnchor (cteId : Nat)
  | logicalCTEProduce (cteId : Nat) (outputColumns : List OutputColumn)
  | logicalCTEConsume (cteId : Nat) (aliasName : String) (outputColumns : List OutputColumn)
  | logicalTopN (op : LogicalTopNOp)
  | physicalHashAggregate (op : PhysicalHashAggregateOp)

def Operator.isPhysical : Operator → Bool
  | .physicalHashAggregate _ => true
  | _ => false

structure MExpr where
  id : MExprId
  op : Operator
  children : List GroupId

structure LogicalProperties where
  outputColumns : List OutputColumn

structure Group where
  id : GroupId
  logicalExprs : List MExpr
  physicalExprs : List MExpr
  logicalProps : Option LogicalProperties

structure Memo where
  groups : List Group

structure NewExpr where
  op : Operator
  children : List GroupId

namespace Memo

def nextExprId (memo : Memo) : MExprId :=
  (memo.groups.map fun g => g.logicalExprs.length + g.physicalExprs.length).sum

def newGroup (memo : Memo) (expr : MExpr) : GroupId × Memo :=
  let id := memo.groups.length
  let group : Group :=
    if expr.op.isPhysical then ⟨id, [], [expr], none⟩ else ⟨id, [expr], [], none⟩
  (id, ⟨memo.groups ++ [group]⟩)

theorem newGroup_lookup (memo : Memo) (expr : MExpr) :
    ((memo.newGroup expr).2.groups[(memo.newGroup expr).1]?).map
      (fun g => g.logicalExprs ++ g.physicalExprs) = some [expr] := by
  unfold newGroup
  rw [List.getElem?_append_right (Nat.le_refl _), Nat.sub_self]
  split <;> rfl

variable [CaseFolding]

def getGroupColumnNames (memo : Memo) (group : GroupId) : List String :=
  match (memo.groups[group]?).bind Group.logicalProps with
  | none => []
  | some props => columnNames props.outputColumns

end Memo

end NovaRocks
