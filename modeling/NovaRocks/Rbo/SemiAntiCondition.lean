import NovaRocks.Rbo.PushToOuterJoin

/-!
Conjuncts of a semi or anti join's condition that speak of the right input alone become a
filter on that input. Where they read in the condition what they read there, nothing changes for
three of the four kinds. A right anti join loses the right rows that fail such a conjunct: they
have no partner and belong to its result.
-/
namespace NovaRocks
open Relational List

section
variable [CaseFolding]

def takesCondition : JoinKind → Bool
  | .leftSemi | .leftAnti | .rightSemi | .rightAnti => true
  | _ => false

def isRightOnly (cols : JoinColumns) (e : TypedExpr) : Bool :=
  let refs := collectColumnRefs e
  let qrefs := collectQualifiedColumnRefs e
  let anyLeft := refs.any cols.leftCols.contains
  if !qrefs.isEmpty then qrefs.all cols.rightQcols.contains && !anyLeft
  else if !refs.isEmpty then refs.all cols.rightCols.contains && !anyLeft
  else false

def movedRight (left right : LogicalPlan) (condition : TypedExpr) : List TypedExpr :=
  (splitAnd condition).filter (isRightOnly (joinColumns left right))

def keptOn (left right : LogicalPlan) (condition : TypedExpr) : List TypedExpr :=
  (splitAnd condition).filter fun c => !isRightOnly (joinColumns left right) c

def pushSemiAntiRightOnlyCondition : LogicalPlan → Option LogicalPlan
  | .join left right kind (some condition) =>
    if takesCondition kind && !(movedRight left right condition).isEmpty then
      some (.join left (filterAll right (movedRight left right condition)) kind
        (mergeJoinConditions none (keptOn left right condition)))
    else none
  | _ => none

section
variable (w : World) (o : Outer) (left right : LogicalPlan) (condition : TypedExpr)

def movedAccepts (r : Row) : Bool :=
  (movedRight left right condition).all fun e => accepts w.interp (scopeOf w.interp right) o e r

/-- In the condition the moved conjuncts read the right input, their hash keys included. -/
def MovedReadsKept : Prop :=
  ∀ e ∈ movedRight left right condition, TakesRight w.interp left right e ∧ KeysAligned w.interp left right e

end

section
variable {w : World} {o : Outer} {left right : LogicalPlan} {condition : TypedExpr}

/-- The condition is what stays in it, and the moved conjuncts of the right row. -/
theorem conditionMatches_moved (l r : Row) (kept : MovedReadsKept w left right condition) :
    conditionMatches w.interp (scopeOf w.interp left) (scopeOf w.interp right) o (some condition) l r =
      (movedAccepts w o left right condition r && conditionMatches w.interp (scopeOf w.interp left)
        (scopeOf w.interp right) o (mergeJoinConditions none (keptOn left right condition)) l r) := by
  rw [conditionMatches_merge]
  change (joinConjuncts condition).all _ = (_ && (true && _))
  rw [Bool.true_and, joinConjuncts_splitAnd, all_flatMap,
    all_filter_split _ (isRightOnly (joinColumns left right))]
  congr 1
  refine all_congr_mem fun e moved => ?_
  obtain ⟨takes,aligned⟩ := kept e moved
  rw [conjunctsMatch_eq_accepts o 0 l r aligned, accepts_pair_right o 0 l r takes]

theorem wellScoped_moved (valid : wellScoped i (.join left right kind (some condition)) = true) :
    wellScoped i (.join left (filterAll right (movedRight left right condition)) kind
        (mergeJoinConditions none (keptOn left right condition))) = true ↔
      ∀ e ∈ movedRight left right condition, inScope i (scopeOf i right) e = true := by
  simp only [wellScoped, Bool.and_eq_true] at valid
  obtain ⟨⟨validLeft,validRight⟩,on⟩ := valid
  rw [wellScoped, Bool.and_eq_true, Bool.and_eq_true, wellScoped_filterAll, mem_mergeJoinConditions,
    scopeOf_filterAll]
  · refine ⟨fun found => found.1.2.2,fun found => ⟨⟨validLeft,validRight,found⟩,?_⟩⟩
    refine all_eq_true.mpr fun e member => all_eq_true.mpr fun r read => ?_
    refine all_eq_true.mp (all_eq_true.mp on condition (by simp)) r (mem_reads_iff.mpr ⟨e,?_,read⟩)
    exact mem_of_mem_filter member
  · intro e rest
    rw [inScope, reads, refsWith_combineAnd, all_flatMap]
    rfl

end

section
variable (w : World) (ctes : Nat → List Row) (o : Outer) (left right : LogicalPlan) (condition : TypedExpr)

theorem sameBag_moved_iff (four : takesCondition kind = true) (kept : MovedReadsKept w left right condition) :
    SameBag (rows w ctes o (.join left (filterAll right (movedRight left right condition)) kind
        (mergeJoinConditions none (keptOn left right condition))))
      (rows w ctes o (.join left right kind (some condition))) ↔
      (kind = .rightAnti → ∀ row ∈ rows w ctes o right, movedAccepts w o left right condition row = true) := by
  simp only [rows, scopeOf_filterAll, width_filterAll, rows_filterAll,
    funext₂ fun l r => conditionMatches_moved (o := o) l r kept]
  change SameBag (joinRows _ _ _ _ _ _ ((rows w ctes o right).filter (movedAccepts w o left right condition))) _ ↔ _
  generalize movedAccepts w o left right condition = keep
  cases kind with
  | leftSemi =>
    rw [joinRows, paired, hasPartner_filter]
    exact iff_of_true (.refl _) fun no => absurd no (by decide)
  | leftAnti =>
    rw [joinRows, lonely, hasPartner_filter]
    exact iff_of_true (.refl _) fun no => absurd no (by decide)
  | rightSemi =>
    simp only [joinRows, paired, filter_filter, hasPartner_flip_and, Bool.and_comm]
    exact iff_of_true (.refl _) fun no => absurd no (by decide)
  | rightAnti =>
    simp only [joinRows, lonely, filter_filter, hasPartner_flip_and]
    rw [SameBag, perm_filter_iff, true_implies]
    refine forall₂_congr fun row _ => ?_
    cases keep row <;> simp
  | _ => cases four

end

end

def bigCap : TypedExpr := .test (.column (some "l") "cap") .gt (.int 9)

def ordersAnti : LogicalPlan := .join orders limits .rightAnti (some (.test sameCustomer .and bigCap))

end NovaRocks
