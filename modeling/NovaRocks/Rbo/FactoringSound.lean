import NovaRocks.Rbo.JoinGraph
import NovaRocks.Rbo.PushToJoin

/-!
The three rewrites that take equalities out of a disjunction: for a join above which the
predicate stands, for the join graph, and for the correlation of a subquery. A conjunction
of what comes out is true on the rows on which the predicate is.
-/
namespace NovaRocks
open Relational List

section
variable [CaseFolding]

/-- Left-nested conjunction of a nonempty list, given as head and tail. -/
def conjoin (first : TypedExpr) (rest : List TypedExpr) : TypedExpr :=
  rest.foldl (fun acc e => ⟨.binaryOp acc .and e, .boolean, false⟩) first

/-- `outerOnly` says which expressions the outer query alone can resolve. -/
def isCorrelationEq (outerOnly : TypedExpr → Bool) (e : TypedExpr) : Bool :=
  match e.kind with
  | .binaryOp l .eq r => outerOnly l != outerOnly r
  | _ => false

def branchWithoutCorrelation (common conjuncts : List TypedExpr) : TypedExpr :=
  match conjuncts.filter fun c => !common.any (exprEq c) with
  | [] => trueLiteral
  | e :: rest => conjoin e rest

def factorCommonCorrelationFromOr (outerOnly : TypedExpr → Bool) (e : TypedExpr) : TypedExpr :=
  match (splitOrBranches e).map joinConjuncts with
  | first :: second :: others =>
    let common := first.filter fun c => isCorrelationEq outerOnly c &&
      (second :: others).all fun branch => branch.any fun d => exprEq d c
    match common with
    | [] => e
    | corr :: more => conjoin corr (more ++ [combineOr (branchWithoutCorrelation common first)
        ((second :: others).map (branchWithoutCorrelation common))])
  | _ => e

/-- The conjuncts a caller goes on with: the predicate itself where nothing was taken out. -/
def factoredConjuncts (e : TypedExpr) (factored : List TypedExpr × Option TypedExpr) : List TypedExpr :=
  if factored.1.isEmpty then [e] else factored.1 ++ factored.2.toList

section
variable (i : Interp) (env : Env)

theorem holds_conjoin (first : TypedExpr) (rest : List TypedExpr) :
    (truthOf i env (conjoin first rest)).holds = (first :: rest).all fun c => (truthOf i env c).holds := by
  induction rest generalizing first with
  | nil => simp [conjoin]
  | cons e rest ih =>
    have step := ih ⟨.binaryOp first .and e,.boolean,false⟩
    rw [conjoin] at step
    rw [conjoin, foldl_cons, step, all_cons, truthOf_and, Kleene.holds_and, all_cons, all_cons,
      Bool.and_assoc]

theorem holds_branchWithoutCorrelation (common conjuncts : List TypedExpr) :
    (truthOf i env (branchWithoutCorrelation common conjuncts)).holds =
      (conjuncts.filter fun c => !common.any (exprEq c)).all fun c => (truthOf i env c).holds := by
  unfold branchWithoutCorrelation
  split
  case h_1 empty =>
    rw [empty]
    rfl
  case h_2 e rest kept =>
    rw [kept]
    exact holds_conjoin i env e rest

theorem holds_factorCommonCorrelation (outerOnly : TypedExpr → Bool) (e : TypedExpr) :
    (truthOf i env (factorCommonCorrelationFromOr outerOnly e)).holds = (truthOf i env e).holds := by
  unfold factorCommonCorrelationFromOr
  split
  case h_2 => rfl
  case h_1 first second others branches =>
    simp only
    split
    case h_1 => rfl
    case h_2 corr more taken =>
      have shared : ∀ branch ∈ first :: second :: others, ∀ c ∈ corr :: more,
          ∃ d ∈ branch, d.kind = c.kind := by
        intro branch listed c member
        rw [← taken, mem_filter, Bool.and_eq_true, all_eq_true] at member
        rcases mem_cons.mp listed with rfl | other
        · exact ⟨c,member.1,rfl⟩
        · obtain ⟨d,inBranch,same⟩ := any_eq_true.mp (member.2.2 branch other)
          exact ⟨d,inBranch,exprEq_kind same⟩
      rw [taken, holds_conjoin, holds_branches, branches,
        holds_factored i env (holds_branchWithoutCorrelation i env (corr :: more)) shared,
        ← cons_append, all_append]
      simp [holds_combineOr]

/-- What was taken out and the remainder are true where the predicate is. Where nothing was
taken out there is no remainder either, and the predicate stays. -/
def FactorsOut (e : TypedExpr) (factored : List TypedExpr × Option TypedExpr) : Prop :=
  (factored.1 ≠ [] → ((factored.1 ++ factored.2.toList).all fun c => (truthOf i env c).holds) =
    (truthOf i env e).holds) ∧
  (factored.1 = [] → factored.2 = none) ∧
  ((factoredConjuncts e factored).all fun c => (truthOf i env c).holds) = (truthOf i env e).holds

theorem factorsOut_factorCommonEq (candidate : TypedExpr → Bool) (e : TypedExpr) :
    FactorsOut i env e (factorCommonEq candidate e) := by
  have taken : (factorCommonEq candidate e).1 ≠ [] →
      (((factorCommonEq candidate e).1 ++ (factorCommonEq candidate e).2.toList).all
        fun c => (truthOf i env c).holds) = (truthOf i env e).holds := by
    intro found
    rw [all_append]
    exact (factorCommonEq_holds i env (Prod.mk.eta).symm found).symm
  refine ⟨taken,factorCommonEq_none candidate e,?_⟩
  unfold factoredConjuncts
  split
  case isTrue => simp
  case isFalse found => exact taken fun none' => found (isEmpty_iff.mpr none')

theorem or_factoring_equivalent (e : TypedExpr) :
    (∀ cols, FactorsOut i env e (factorCommonEqFromOr cols e)) ∧
    FactorsOut i env e (factorCommonEqFromOrForReorder e) ∧
    ∀ outerOnly, (truthOf i env (factorCommonCorrelationFromOr outerOnly e)).holds =
      (truthOf i env e).holds := by
  refine ⟨fun cols => ?_,?_,fun outerOnly => ?_⟩
  · exact factorsOut_factorCommonEq i env (isCrossSideEq cols) e
  · exact factorsOut_factorCommonEq i env isAnyEq e
  · exact holds_factorCommonCorrelation i env outerOnly e

end

end

def sharedKey : TypedExpr :=
  .test (.column none "a") .eq (.column none "b")

def above (bound : Int) : TypedExpr :=
  .test (.column none "c") .gt (.int bound)

/-- `a = b AND c > 1 OR a = b AND c > 5`. -/
def sharedEquality : TypedExpr :=
  .test (.test sharedKey .and (above 1)) .or (.test sharedKey .and (above 5))

theorem or_factoring_equivalent_shared :
    factorCommonEqFromOrForReorder sharedEquality = ([sharedKey], some (combineOr (above 1) [above 5])) ∧
      ∀ env, ([sharedKey, combineOr (above 1) [above 5]].all fun c => (truthOf intInterp env c).holds) =
        (truthOf intInterp env sharedEquality).holds := by
  have factored : factorCommonEqFromOrForReorder sharedEquality =
      ([sharedKey], some (combineOr (above 1) [above 5])) := by
    simp [factorCommonEqFromOrForReorder, factorCommonEq, sharedEquality, sharedKey, above,
      TypedExpr.test, TypedExpr.column, TypedExpr.int, splitOrBranches, joinConjuncts, isAnyEq, columnEq,
      exprEq, sameKind, sameExpr, branchRest, combineOr, combineAnd, isTrueLiteral]
  refine ⟨factored,fun env => ?_⟩
  have taken := (or_factoring_equivalent intInterp env sharedEquality).2.1.1
  rw [factored] at taken
  exact taken (cons_ne_nil _ _)

/-- FALSE has no branches to share anything: no equality and no remainder come out of it. -/
theorem false_factors_to_nothing :
    factorCommonEqFromOrForReorder ⟨.literal (.bool false), .boolean, false⟩ = ([], none) ∧
      (truthOf intInterp ⟨fun _ => .null, fun _ => .null⟩
        ⟨.literal (.bool false), .boolean, false⟩).holds = false :=
  ⟨rfl,rfl⟩

end NovaRocks
