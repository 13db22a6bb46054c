import NovaRocks.Sql.Conjuncts

/-!
The two column collectors the rewrite rules decide by, and the filter that is
put back over conjuncts a rule could not place. The collectors look only at
the plan; what an operator really answers to is its scope.
-/
namespace NovaRocks
open List
variable [CaseFolding]

/-- Bare output names. For all four semi and anti joins these are the left
input's, also where the join keeps the right rows. -/
def collectOutputColumns : LogicalPlan → List String
  | .scan node => columnNames node.columns
  | .filter input _ => collectOutputColumns input
  | .project _ items => items.map fun item => lower item.outputName
  | .join left right joinType _ =>
    match joinType with
    | .leftSemi | .leftAnti | .rightSemi | .rightAnti => collectOutputColumns left
    | _ => collectOutputColumns left ++ collectOutputColumns right
  | .aggregate _ _ _ columns => columnNames columns
  | .sort input _ => collectOutputColumns input
  | .limit input _ _ => collectOutputColumns input
  | .window _ _ columns => columnNames columns
  | .union (first :: _) _ => collectOutputColumns first
  | .union [] _ => []
  | .intersect (first :: _) => collectOutputColumns first
  | .intersect [] => []
  | .except (first :: _) => collectOutputColumns first
  | .except [] => []
  | .values _ columns => columnNames columns
  | .generateSeries node => [lower node.columnName]
  | .cteAnchor _ _ consumer => collectOutputColumns consumer
  | .cteProduce _ _ columns => columnNames columns
  | .subqueryAlias _ _ columns => columnNames columns
  | .repeat input _ => collectOutputColumns input
  | .cteConsume _ _ columns => columnNames columns

def bareColumns (names : List String) : List QualifiedRef :=
  names.map fun c => (none, c)

def qualifiedColumns (qualifier : String) (names : List String) : List QualifiedRef :=
  names.flatMap fun c => [(some qualifier, c), (none, c)]

/-- Output names with the qualifier a scan or an alias gives them. A join
lists both inputs whatever its kind. -/
def collectQualifiedOutputColumns : LogicalPlan → List QualifiedRef
  | .scan node =>
    qualifiedColumns (lower (node.aliasName.getD node.table.name)) (columnNames node.columns)
  | .filter input _ => collectQualifiedOutputColumns input
  | .project _ items => bareColumns (items.map fun item => lower item.outputName)
  | .join left right _ _ =>
    collectQualifiedOutputColumns left ++ collectQualifiedOutputColumns right
  | .aggregate _ _ _ columns => bareColumns (columnNames columns)
  | .sort input _ => collectQualifiedOutputColumns input
  | .limit input _ _ => collectQualifiedOutputColumns input
  | .window _ _ columns => bareColumns (columnNames columns)
  | .union (first :: _) _ => collectQualifiedOutputColumns first
  | .union [] _ => []
  | .intersect (first :: _) => collectQualifiedOutputColumns first
  | .intersect [] => []
  | .except (first :: _) => collectQualifiedOutputColumns first
  | .except [] => []
  | .values _ columns => bareColumns (columnNames columns)
  | .generateSeries node => bareColumns [lower node.columnName]
  | .cteAnchor _ _ consumer => collectQualifiedOutputColumns consumer
  | .cteProduce _ _ columns => bareColumns (columnNames columns)
  | .subqueryAlias _ aliasName columns => qualifiedColumns (lower aliasName) (columnNames columns)
  | .repeat input _ => collectQualifiedOutputColumns input
  | .cteConsume _ aliasName columns => qualifiedColumns (lower aliasName) (columnNames columns)

def filterAll (plan : LogicalPlan) : List TypedExpr → LogicalPlan
  | [] => plan
  | e :: rest => .filter plan (combineAnd e rest)

def wrapRemainingFilter (plan : LogicalPlan) (remaining : List TypedExpr) : LogicalPlan :=
  filterAll plan remaining

@[simp] theorem scopeOf_filterAll (i : Interp) (plan : LogicalPlan) (es : List TypedExpr) :
    scopeOf i (filterAll plan es) = scopeOf i plan := by
  cases es <;> rfl

@[simp] theorem width_filterAll (i : Interp) (plan : LogicalPlan) (es : List TypedExpr) :
    width i (filterAll plan es) = width i plan := by
  cases es <;> rfl

theorem rows_filterAll (w : World) (ctes : Nat → List Row) (o : Outer) (plan : LogicalPlan)
    (es : List TypedExpr) :
    rows w ctes o (filterAll plan es) = (rows w ctes o plan).filter fun row =>
      es.all fun e => accepts w.interp (scopeOf w.interp plan) o e row := by
  cases es with
  | nil => simp [filterAll]
  | cons e rest =>
    rw [filterAll, rows]
    refine filter_congr fun row _ => ?_
    exact accepts_combineAnd w.interp _ o row e rest

theorem wellScoped_filterAll (i : Interp) (plan : LogicalPlan) (es : List TypedExpr) :
    wellScoped i (filterAll plan es) = true ↔
      wellScoped i plan = true ∧ ∀ e ∈ es, inScope i (scopeOf i plan) e = true := by
  cases es with
  | nil => simp [filterAll]
  | cons e rest =>
    simp only [filterAll, wellScoped, Bool.and_eq_true, inScope, reads, refsWith_combineAnd,
      all_flatMap, all_eq_true]

end NovaRocks
