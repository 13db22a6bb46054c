import NovaRocks.Sql.JoinScope

/-!
A plan the fragment builder accepts looks nothing up outside itself: whatever
row an enclosing query is at, it returns the same rows. A subquery whose plan is
accepted on its own is therefore evaluated once, not once for each outer row.
-/
namespace NovaRocks
open Relational List
open SortItem (expr)
open Bool (and_eq_true)
variable [CaseFolding]

section
variable (o o' : Outer)

omit [CaseFolding] in
theorem col_envOf (found : s.resolves r = true) (look : QualifiedRef → Value) :
    (envOf s o look).col r = look r := by
  simp [envOf, found]

theorem eval_closed (found : inScope i s e = true) (look : QualifiedRef → Value) :
    eval i (envOf s o look) e = eval i (envOf s o' look) e := by
  apply eval_congr
  · rfl
  · intro r read
    have resolved := all_eq_true.mp found r read
    rw [col_envOf o resolved, col_envOf o' resolved]

theorem evalList_closed (found : es.all (inScope i s) = true) (look : QualifiedRef → Value) :
    evalList i (envOf s o look) es = evalList i (envOf s o' look) es := by
  induction es with
  | nil => rfl
  | cons e rest ih =>
    rw [all_cons, and_eq_true] at found
    rw [evalList, evalList, eval_closed o o' found.1, ih found.2]

theorem accepts_closed (found : inScope i s e = true) (row : Row) :
    accepts i s o e row = accepts i s o' e row := by
  rw [accepts, accepts, truthOf, truthOf, eval_closed o o' found]

theorem conditionMatches_closed
    (found : condition.toList.all (inScope i (.merge n ls rs)) = true) (l r : Row) :
    conditionMatches i ls rs o condition l r = conditionMatches i ls rs o' condition l r := by
  cases condition with
  | none => rfl
  | some e =>
    apply all_congr_mem
    intro c member
    have inside : inScope i (.merge 0 ls rs) c = true := by
      rw [inScope, all_eq_true]
      intro ref read
      have whole := all_eq_true.mp (all_eq_true.mp found e (by simp)) ref (by
        rw [reads, refsWith_joinConjuncts, mem_flatMap]
        exact ⟨c,member,read⟩)
      rw [Scope.resolves_merge] at whole ⊢
      exact whole
    unfold conjunctMatches
    rw [truthOf, truthOf, eval_closed o o' inside]

end

section
variable (o o' : Outer)

theorem aggregateCells_closed (keys : groupBy.all (inScope i s) = true)
    (operands : (aggregates.all fun call =>
      (call.args ++ call.orderBy.map expr).all (inScope i s)) = true) (input : List Row) :
    aggregateCells i (fun row => envOf s o row.look) groupBy aggregates input =
      aggregateCells i (fun row => envOf s o' row.look) groupBy aggregates input := by
  unfold aggregateCells
  simp only [evalList_closed o o' keys]
  refine map_congr_left fun group _ => congrArg (group.1 ++ ·) (map_congr_left fun call member => ?_)
  have found := all_eq_true.mp operands call member
  rw [all_append, and_eq_true] at found
  simp only [evalList_closed o o' found.1, evalList_closed o o' found.2]

theorem windowCells_closed (found : (windowExprs.all fun e =>
      (e.args ++ e.partitionBy ++ e.orderBy.map expr).all (inScope i s)) = true)
    (input : List Row) :
    windowCells i (fun row => envOf s o row.look) windowExprs input =
      windowCells i (fun row => envOf s o' row.look) windowExprs input := by
  apply map_congr_left
  intro entry _
  refine congrArg (entry.1.cells ++ ·) (map_congr_left fun e member => ?_)
  have operands := all_eq_true.mp found e member
  rw [all_append, all_append, and_eq_true, and_eq_true] at operands
  simp only [evalList_closed o o' operands.1.1, evalList_closed o o' operands.1.2,
    evalList_closed o o' operands.2]

end

section
variable (w : World) (o o' : Outer)

mutual
theorem rows_closed : ∀ (plan : LogicalPlan) (ctes : Nat → List Row),
    wellScoped w.interp plan = true → rows w ctes o plan = rows w ctes o' plan
  | .scan node, ctes, valid => by
    rw [rows, rows]
    apply filter_congr
    intro row _
    apply all_congr_mem
    intro e member
    exact accepts_closed o o' (all_eq_true.mp valid e member) row
  | .filter input predicate, ctes, valid => by
    rw [wellScoped, and_eq_true] at valid
    rw [rows, rows, rows_closed input ctes valid.1]
    apply filter_congr
    intro row _
    exact accepts_closed o o' valid.2 row
  | .project input items, ctes, valid => by
    rw [wellScoped, and_eq_true] at valid
    rw [rows, rows, rows_closed input ctes valid.1]
    apply map_congr_left
    intro row _
    refine congrArg (cellRow _) (map_congr_left fun item member => ?_)
    exact eval_closed o o' (all_eq_true.mp valid.2 item member) row.look
  | .aggregate input groupBy aggregates columns, ctes, valid => by
    rw [wellScoped, and_eq_true, and_eq_true] at valid
    rw [rows, rows, rows_closed input ctes valid.1.1, aggregateCells_closed o o' valid.1.2 valid.2]
  | .join left right kind condition, ctes, valid => by
    rw [wellScoped, and_eq_true, and_eq_true] at valid
    have matches' := funext₂ (conditionMatches_closed o o' valid.2)
    rw [rows, rows, rows_closed left ctes valid.1.1, rows_closed right ctes valid.1.2, matches']
  | .sort input items, ctes, valid => by
    rw [wellScoped, and_eq_true] at valid
    have keys : (items.map expr).all (inScope w.interp (scopeOf w.interp input)) = true := by
      rw [all_map]
      exact valid.2
    rw [rows, rows, rows_closed input ctes valid.1]
    simp only [sortRows, evalList_closed o o' keys]
  | .limit input count offset, ctes, valid => by
    have same := rows_closed input ctes valid
    cases count <;> simp only [rows, same]
  | .union inputs all, ctes, valid => by
    rw [rows, rows, rowsOfInputs_closed inputs _ ctes valid]
  | .intersect inputs, ctes, valid => by
    rw [rows, rows, rowsOfInputs_closed inputs _ ctes valid]
  | .except inputs, ctes, valid => by
    rw [rows, rows, rowsOfInputs_closed inputs _ ctes valid]
  | .values exprRows columns, ctes, valid => by
    rw [rows, rows]
    apply map_congr_left
    intro exprs member
    have found := all_eq_true.mp valid exprs member
    rw [and_eq_true] at found
    rw [evalList_closed o o' found.2]
  | .generateSeries node, ctes, _ => rfl
  | .window input windowExprs columns, ctes, valid => by
    rw [wellScoped, and_eq_true] at valid
    rw [rows, rows, rows_closed input ctes valid.1, windowCells_closed o o' valid.2]
  | .subqueryAlias input aliasName columns, ctes, valid => by
    rw [rows, rows, rows_closed input ctes valid]
  | .repeat input info, ctes, valid => by
    rw [rows, rows, rows_closed input ctes valid]
  | .cteAnchor cteId produce consumer, ctes, valid => by
    rw [wellScoped, and_eq_true] at valid
    simp only [rows]
    rw [rows_closed produce ctes valid.1, rows_closed consumer _ valid.2]
  | .cteProduce cteId input columns, ctes, valid => by
    rw [rows, rows, rows_closed input ctes valid]
  | .cteConsume cteId aliasName columns, ctes, _ => rfl
theorem rowsOfInputs_closed : ∀ (inputs : List LogicalPlan) (arity : Nat) (ctes : Nat → List Row),
    wellScopedInputs w.interp arity inputs = true →
    rowsOfInputs w ctes o inputs = rowsOfInputs w ctes o' inputs
  | [], _, _, _ => rfl
  | p :: rest, arity, ctes, valid => by
    rw [wellScopedInputs, and_eq_true, and_eq_true] at valid
    rw [rowsOfInputs, rowsOfInputs, rows_closed p ctes valid.1.1,
      rowsOfInputs_closed rest arity ctes valid.2]
end

end

end NovaRocks
