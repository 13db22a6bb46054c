import NovaRocks.Rbo.OrFactoring

/-!
`Filter(Join)` pushdown. Each conjunct of the filter is placed by the names it
mentions: below the left or the right input, into the join condition, or back
above the join.
-/
namespace NovaRocks
open Relational List
variable [CaseFolding]

structure JoinColumns where
  leftCols : List String
  rightCols : List String
  leftQcols : List QualifiedRef
  rightQcols : List QualifiedRef

def joinColumns (left right : LogicalPlan) : JoinColumns :=
  ⟨collectOutputColumns left, collectOutputColumns right,
    collectQualifiedOutputColumns left, collectQualifiedOutputColumns right⟩

structure Placement where
  leftPreds : List TypedExpr
  rightPreds : List TypedExpr
  joinPreds : List TypedExpr
  remaining : List TypedExpr

namespace Placement

def toLeft (e : TypedExpr) : Placement := ⟨[e], [], [], []⟩
def toRight (e : TypedExpr) : Placement := ⟨[], [e], [], []⟩
def toJoin (e : TypedExpr) : Placement := ⟨[], [], [e], []⟩
def above (e : TypedExpr) : Placement := ⟨[], [], [], [e]⟩

def preds (p : Placement) : List TypedExpr :=
  p.leftPreds ++ p.rightPreds ++ p.joinPreds ++ p.remaining

def collect (ps : List Placement) : Placement :=
  ⟨ps.flatMap leftPreds, ps.flatMap rightPreds, ps.flatMap joinPreds, ps.flatMap remaining⟩

end Placement

def isLeftJoinVariant : JoinKind → Bool
  | .leftOuter | .leftSemi | .leftAnti => true
  | _ => false

section
variable (kind : JoinKind)

/-- A right-only conjunct goes below the join unless the join pads or hides
the right rows. -/
def placeRight (e : TypedExpr) : Placement :=
  match kind with
  | .inner | .cross | .rightOuter | .rightSemi | .rightAnti => .toRight e
  | _ => .above e

section
variable (cols : JoinColumns)

def isCrossSideEq (e : TypedExpr) : Bool :=
  match columnEq e with
  | some (l, r) =>
    (cols.leftCols.contains l.2 && cols.rightCols.contains r.2) ||
      (cols.leftCols.contains r.2 && cols.rightCols.contains l.2)
  | none => false

def factorCommonEqFromOr (e : TypedExpr) : List TypedExpr × Option TypedExpr :=
  factorCommonEq (isCrossSideEq cols) e

/-- All names of the conjunct exist on both inputs, as in a self join. -/
def selfJoinOverlap (e : TypedExpr) : Bool :=
  (collectColumnRefs e).all fun c => cols.leftCols.contains c && cols.rightCols.contains c

/-- A conjunct whose qualified references reach both inputs. -/
def placeBothSides (e : TypedExpr) : Placement :=
  let refs := collectColumnRefs e
  let overlap := selfJoinOverlap cols e
  if overlap && !isLeftJoinVariant kind && (kind == .cross || kind == .inner) then
    .toJoin e
  else if overlap then .above e
  else if isLeftJoinVariant kind && refs.all cols.leftCols.contains then .toLeft e
  else if isLeftJoinVariant kind then .above e
  else
    match factorCommonEqFromOr cols e with
    | ([], _) => .toJoin e
    | (factored, rest) => ⟨[], [], factored, rest.toList⟩

def placeConjunct (e : TypedExpr) : Placement :=
  let refs := collectColumnRefs e
  let inLeft := refs.any cols.leftCols.contains
  let inRight := refs.any cols.rightCols.contains
  match inLeft, inRight with
  | true, false => .toLeft e
  | false, true => placeRight kind e
  | true, true =>
    -- bare names say both sides; qualified names may tell them apart
    let qrefs := collectQualifiedColumnRefs e
    let allInLeft := qrefs.all cols.leftQcols.contains
    let allInRight := qrefs.all cols.rightQcols.contains
    let ambiguous := qrefs.any fun r => cols.leftQcols.contains r && cols.rightQcols.contains r
    if allInLeft && !allInRight && !ambiguous then .toLeft e
    else if allInRight && !allInLeft && !ambiguous then placeRight kind e
    else if qrefs.any cols.leftQcols.contains && qrefs.any cols.rightQcols.contains then
      placeBothSides kind cols e
    else .above e
  | false, false => .toLeft e

/-- Drain-back: what may not sit below the join returns above it. -/
def drainBack (p : Placement) : Placement :=
  match kind with
  | .rightOuter | .rightSemi | .rightAnti =>
    ⟨[], p.rightPreds, p.joinPreds, p.remaining ++ p.leftPreds⟩
  | .fullOuter => ⟨[], [], p.joinPreds, p.remaining ++ p.leftPreds ++ p.rightPreds⟩
  | _ => p

def placeAll (predicate : TypedExpr) : Placement :=
  drainBack kind (.collect ((splitAnd predicate).map (placeConjunct kind cols)))

def mergeJoinConditions (existing : Option TypedExpr) (newPreds : List TypedExpr) : Option TypedExpr :=
  match existing.toList ++ newPreds with
  | [] => none
  | e :: rest => some (combineAnd e rest)

/-- The rewritten plan, and whether any conjunct left the filter. -/
def pushPredicatesThroughJoin (predicate : TypedExpr) (left right : LogicalPlan)
    (joinType : JoinKind) (condition : Option TypedExpr) : LogicalPlan × Bool :=
  let p := placeAll joinType (joinColumns left right) predicate
  let newCondition := mergeJoinConditions condition p.joinPreds
  let newJoinType := if joinType = .cross ∧ newCondition.isSome then .inner else joinType
  let newJoin := LogicalPlan.join (filterAll left p.leftPreds) (filterAll right p.rightPreds)
    newJoinType newCondition
  (wrapRemainingFilter newJoin p.remaining,
    !p.leftPreds.isEmpty || !p.rightPreds.isEmpty || !p.joinPreds.isEmpty)

theorem placeConjunct_cases (e : TypedExpr) :
    placeConjunct kind cols e = .toLeft e ∨ placeConjunct kind cols e = placeRight kind e ∨
    placeConjunct kind cols e = .above e ∨
    (isLeftJoinVariant kind = false ∧
      (placeConjunct kind cols e = .toJoin e ∨ ∃ common rest,
        factorCommonEqFromOr cols e = (common, rest) ∧ common ≠ [] ∧
        placeConjunct kind cols e = ⟨[], [], common, rest.toList⟩)) := by
  have bothSides : placeBothSides kind cols e = .toLeft e ∨ placeBothSides kind cols e = .above e ∨
      (isLeftJoinVariant kind = false ∧
        (placeBothSides kind cols e = .toJoin e ∨ ∃ common rest,
          factorCommonEqFromOr cols e = (common, rest) ∧ common ≠ [] ∧
          placeBothSides kind cols e = ⟨[], [], common, rest.toList⟩)) := by
    unfold placeBothSides
    simp only
    split
    · rename_i overlap
      simp only [Bool.and_eq_true, Bool.not_eq_true'] at overlap
      exact .inr (.inr ⟨overlap.1.2,.inl rfl⟩)
    · split
      · exact .inr (.inl rfl)
      · split
        · exact .inl rfl
        · split
          · exact .inr (.inl rfl)
          · rename_i notVariant
            refine .inr (.inr ⟨by simpa using notVariant,?_⟩)
            split
            · exact .inl rfl
            · rename_i common rest nonempty factored
              refine .inr ⟨common,rest,factored,?_,rfl⟩
              rintro rfl
              exact nonempty rfl
  unfold placeConjunct
  simp only
  split
  · exact .inl rfl
  · exact .inr (.inl rfl)
  · split
    · exact .inl rfl
    · split
      · exact .inr (.inl rfl)
      · split
        · rcases bothSides with eq | eq | eq
          · exact .inl eq
          · exact .inr (.inr (.inl eq))
          · exact .inr (.inr (.inr eq))
        · exact .inr (.inr (.inl rfl))
  · exact .inl rfl

end

omit [CaseFolding] in
theorem placeRight_cases (e : TypedExpr) : placeRight kind e = .toRight e ∨ placeRight kind e = .above e := by
  cases kind <;> simp [placeRight]

end

theorem placeConjunct_holds (i : Interp) (env : Env) (kind : JoinKind) (cols : JoinColumns) (e : TypedExpr) :
    ((placeConjunct kind cols e).preds.all fun c => (truthOf i env c).holds) = (truthOf i env e).holds := by
  rcases placeConjunct_cases kind cols e with
    eq | eq | eq | ⟨-,eq | ⟨common,rest,factored,found,eq⟩⟩
  · simp [eq, Placement.preds, Placement.toLeft]
  · rw [eq]
    rcases placeRight_cases kind e with side | side
    · simp [side, Placement.preds, Placement.toRight]
    · simp [side, Placement.preds, Placement.above]
  · simp [eq, Placement.preds, Placement.above]
  · simp [eq, Placement.preds, Placement.toJoin]
  · rw [factorCommonEq_holds i env factored found, eq]
    simp [Placement.preds]

omit [CaseFolding] in
theorem collect_holds (test : TypedExpr → Bool) (ps : List Placement) :
    (Placement.collect ps).preds.all test = ps.all fun p => p.preds.all test := by
  induction ps with
  | nil => rfl
  | cons p ps ih =>
    rw [all_cons, ← ih]
    simp only [Placement.collect, Placement.preds, flatMap_cons, all_append]
    ac_rfl

omit [CaseFolding] in
theorem drainBack_holds (test : TypedExpr → Bool) (kind : JoinKind) (p : Placement) :
    (drainBack kind p).preds.all test = p.preds.all test := by
  cases kind <;> simp only [drainBack, Placement.preds, all_append] <;> ac_rfl

theorem placeAll_holds (i : Interp) (env : Env) (kind : JoinKind) (cols : JoinColumns)
    (predicate : TypedExpr) :
    ((placeAll kind cols predicate).preds.all fun c => (truthOf i env c).holds) =
      (truthOf i env predicate).holds := by
  rw [placeAll, drainBack_holds, collect_holds, holds_splitAnd, all_map]
  congr 1
  funext c
  exact placeConjunct_holds i env kind cols c

theorem placeConjunct_reads (i : Interp) (kind : JoinKind) (cols : JoinColumns) (e c : TypedExpr)
    (member : c ∈ (placeConjunct kind cols e).preds) (r : QualifiedRef) (read : r ∈ reads i c) :
    r ∈ reads i e := by
  rcases placeConjunct_cases kind cols e with
    eq | eq | eq | ⟨-,eq | ⟨common,rest,factored,found,eq⟩⟩
  · obtain rfl : c = e := by simpa [eq, Placement.preds, Placement.toLeft] using member
    exact read
  · rw [eq] at member
    rcases placeRight_cases kind e with side | side
    · obtain rfl : c = e := by simpa [side, Placement.preds, Placement.toRight] using member
      exact read
    · obtain rfl : c = e := by simpa [side, Placement.preds, Placement.above] using member
      exact read
  · obtain rfl : c = e := by simpa [eq, Placement.preds, Placement.above] using member
    exact read
  · obtain rfl : c = e := by simpa [eq, Placement.preds, Placement.toJoin] using member
    exact read
  · rw [eq] at member
    exact factorCommonEq_refs _ factored found (by simpa [Placement.preds] using member) read

theorem placeAll_reads (i : Interp) (kind : JoinKind) (cols : JoinColumns) (predicate c : TypedExpr)
    (member : c ∈ (placeAll kind cols predicate).preds) (r : QualifiedRef) (read : r ∈ reads i c) :
    r ∈ reads i predicate := by
  -- membership in the placed conjuncts is invariant under the drain-back
  have collected : c ∈ (Placement.collect ((splitAnd predicate).map (placeConjunct kind cols))).preds := by
    cases kind <;> simp only [placeAll, drainBack, Placement.preds, mem_append] at member ⊢ <;> tauto
  have source : ∃ e ∈ splitAnd predicate, c ∈ (placeConjunct kind cols e).preds := by
    simp only [Placement.collect, Placement.preds, mem_append, mem_flatMap, mem_map] at collected ⊢
    rcases collected with ((⟨_,⟨e,inside,rfl⟩,h⟩ | ⟨_,⟨e,inside,rfl⟩,h⟩) |
      ⟨_,⟨e,inside,rfl⟩,h⟩) | ⟨_,⟨e,inside,rfl⟩,h⟩
    all_goals exact ⟨e,inside,by tauto⟩
  obtain ⟨e,inside,placed⟩ := source
  rw [reads, refsWith_splitAnd, mem_flatMap]
  exact ⟨e,inside,placeConjunct_reads i kind cols e c placed r read⟩

end NovaRocks
