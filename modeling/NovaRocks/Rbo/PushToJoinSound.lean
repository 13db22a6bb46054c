import NovaRocks.Rbo.PushToJoin
import NovaRocks.Sql.JoinScope

/-!
What the pushdown preserves. As long as every conjunct, at the place its names send it
to, reads the columns that the filter above the join reads, the rewritten plan returns
for inner, cross, left outer, left semi, left anti and right semi joins the rows of the
original, in order.
-/
namespace NovaRocks
open Relational List
open Placement (above collect toJoin toLeft toRight)
variable [CaseFolding]

def placementOf (kind : JoinKind) (left right : LogicalPlan) (p : TypedExpr) : Placement :=
  placeAll kind (joinColumns left right) p

section
variable (i : Interp) (left right : LogicalPlan)

def TakesLeft (e : TypedExpr) : Prop :=
  ∀ r ∈ reads i e, fromLeft (scopeOf i left) (scopeOf i right) r = true

def TakesRight (e : TypedExpr) : Prop :=
  ∀ r ∈ reads i e, fromRight (scopeOf i left) (scopeOf i right) r = true

def KeysAligned (e : TypedExpr) : Prop :=
  ∀ c ∈ joinConjuncts e, keyAligned (scopeOf i left) (scopeOf i right) c = true

/-- Where the names send it, each conjunct reads the columns that the filter above
the join reads. Above a semi or an anti join the filter sees one input only. -/
def ReadsKept (kind : JoinKind) (p : TypedExpr) : Prop :=
  let place := placementOf kind left right p
  match kind with
  | .leftSemi | .leftAnti => True
  | .rightSemi | .rightAnti =>
    ∀ e ∈ place.joinPreds, TakesRight i left right e ∧ KeysAligned i left right e
  | _ => (∀ e ∈ place.leftPreds, TakesLeft i left right e) ∧
      (∀ e ∈ place.rightPreds, TakesRight i left right e) ∧
      ∀ e ∈ place.joinPreds, KeysAligned i left right e

def Placeable (kind : JoinKind) (p : TypedExpr) : Prop :=
  let place := placementOf kind left right p
  (∀ e ∈ place.leftPreds, inScope i (scopeOf i left) e = true) ∧
    ∀ e ∈ place.rightPreds, inScope i (scopeOf i right) e = true

end

theorem ReadsKept.both (kept : ReadsKept i left right kind p) (both : kind.keepsBoth = true) :
    (∀ e ∈ (placementOf kind left right p).leftPreds, TakesLeft i left right e) ∧
      (∀ e ∈ (placementOf kind left right p).rightPreds, TakesRight i left right e) ∧
      ∀ e ∈ (placementOf kind left right p).joinPreds, KeysAligned i left right e := by
  cases kind <;> first | exact kept | cases both

theorem TakesLeft.inScope (takes : TakesLeft i left right e) : inScope i (scopeOf i left) e = true :=
  all_eq_true.mpr fun r read => fromLeft_resolves (takes r read)

theorem TakesRight.inScope (takes : TakesRight i left right e) : inScope i (scopeOf i right) e = true :=
  all_eq_true.mpr fun r read => fromRight_resolves (takes r read)

section
variable (p : TypedExpr) (left right : LogicalPlan) (kind : JoinKind) (condition : Option TypedExpr)

def pushed : LogicalPlan :=
  (pushPredicatesThroughJoin p left right kind condition).1

def original : LogicalPlan :=
  .filter (.join left right kind condition) p

theorem scopeOf_pushed_join (i : Interp) (ls rs : List TypedExpr) (c : Option TypedExpr) :
    scopeOf i (.join (filterAll left ls) (filterAll right rs)
      (if kind = .cross ∧ c.isSome then .inner else kind) c) =
      scopeOf i (.join left right kind condition) := by
  by_cases upgrade : kind = .cross ∧ c.isSome = true
  · obtain ⟨rfl,some⟩ := upgrade
    simp [some, scopeOf]
  · rw [if_neg upgrade]
    cases kind <;> simp [scopeOf]

omit [CaseFolding] in
theorem mem_mergeJoinConditions (preds : List TypedExpr) (test : TypedExpr → Bool)
    (split : ∀ e rest, test (combineAnd e rest) = (e :: rest).all test) :
    (mergeJoinConditions condition preds).toList.all test = (condition.toList ++ preds).all test := by
  unfold mergeJoinConditions
  split
  · rename_i none
    rw [none]
    rfl
  · rename_i e rest some
    rw [some, Option.toList_some, all_cons, all_nil, Bool.and_true, split]

theorem conditionMatches_eq (i : Interp) (ls rs : Scope) (o : Outer) (c : Option TypedExpr) (l r : Row) :
    conditionMatches i ls rs o c l r = c.toList.all fun e =>
      (joinConjuncts e).all fun c => conjunctMatches i ls rs o c l.look r.look := by
  cases c <;> simp [conditionMatches]

theorem conditionMatches_merge (i : Interp) (ls rs : Scope) (o : Outer) (preds : List TypedExpr) (l r : Row) :
    conditionMatches i ls rs o (mergeJoinConditions condition preds) l r =
      (conditionMatches i ls rs o condition l r && preds.all fun e =>
        (joinConjuncts e).all fun c => conjunctMatches i ls rs o c l.look r.look) := by
  rw [conditionMatches_eq, mem_mergeJoinConditions, all_append, conditionMatches_eq]
  intro e rest
  rw [joinConjuncts_combineAnd, all_flatMap]

omit [CaseFolding] in
theorem joinRows_upgrade (c : Option TypedExpr) (pair : Row → Row → Row) (padLeft padRight : Row)
    (on : Row → Row → Bool) (ls rs : List Row) :
    joinRows (if kind = .cross ∧ c.isSome then .inner else kind) pair padLeft padRight on ls rs =
      joinRows kind pair padLeft padRight on ls rs := by
  split
  · rename_i cross
    rw [cross.1]
    rfl
  · rfl

theorem rows_pushed (w : World) (ctes : Nat → List Row) (o : Outer) :
    let i := w.interp
    let ls := scopeOf i left
    let rs := scopeOf i right
    let place := placementOf kind left right p
    rows w ctes o (pushed p left right kind condition) =
      (joinRows kind (mergeRow ls rs) (nullRow (width i left)) (nullRow (width i right))
        (fun l r => conditionMatches i ls rs o condition l r && place.joinPreds.all fun e =>
          (joinConjuncts e).all fun c => conjunctMatches i ls rs o c l.look r.look)
        ((rows w ctes o left).filter fun row => place.leftPreds.all fun e => accepts i ls o e row)
        ((rows w ctes o right).filter fun row =>
          place.rightPreds.all fun e => accepts i rs o e row)).filter fun row =>
        place.remaining.all fun e =>
          accepts i (scopeOf i (.join left right kind condition)) o e row := by
  simp only [pushed, pushPredicatesThroughJoin, wrapRemainingFilter]
  rw [rows_filterAll, rows, scopeOf_pushed_join left right kind condition]
  simp only [scopeOf_filterAll, width_filterAll, rows_filterAll, joinRows_upgrade]
  congr 2
  funext l r
  exact conditionMatches_merge condition w.interp _ _ o _ l r

theorem wellScoped_pushed (i : Interp) :
    let place := placementOf kind left right p
    wellScoped i (pushed p left right kind condition) = true ↔
      (wellScoped i left = true ∧ ∀ e ∈ place.leftPreds, inScope i (scopeOf i left) e = true) ∧
      (wellScoped i right = true ∧ ∀ e ∈ place.rightPreds, inScope i (scopeOf i right) e = true) ∧
      (∀ e ∈ condition.toList ++ place.joinPreds, inScope i
        (.merge (width i left) (scopeOf i left) (scopeOf i right)) e = true) ∧
      ∀ e ∈ place.remaining, inScope i (scopeOf i (.join left right kind condition)) e = true := by
  simp only [pushed, pushPredicatesThroughJoin, wrapRemainingFilter]
  rw [wellScoped_filterAll, wellScoped, scopeOf_pushed_join left right kind condition,
    Bool.and_eq_true, Bool.and_eq_true, wellScoped_filterAll, wellScoped_filterAll,
    mem_mergeJoinConditions]
  · simp only [scopeOf_filterAll, width_filterAll, all_eq_true, and_assoc]
    rfl
  · intro e rest
    rw [inScope, reads, refsWith_combineAnd, all_flatMap]
    rfl

theorem wellScoped_original (i : Interp) :
    wellScoped i (original p left right kind condition) = true ↔
      wellScoped i left = true ∧ wellScoped i right = true ∧
      (∀ e ∈ condition.toList, inScope i
        (.merge (width i left) (scopeOf i left) (scopeOf i right)) e = true) ∧
      inScope i (scopeOf i (.join left right kind condition)) p = true := by
  simp only [original, wellScoped, Bool.and_eq_true, all_eq_true, and_assoc]

end

section
variable {w : World} (ctes : Nat → List Row) (o : Outer)

theorem accepts_placement (kind : JoinKind) (left right : LogicalPlan) (i : Interp) (s : Scope) (row : Row) :
    accepts i s o p row = (placementOf kind left right p).preds.all fun e => accepts i s o e row :=
  (placeAll_holds i _ kind _ p).symm

/-- On a joined row the predicate is: left conjuncts on the left row, right
conjuncts on the right row, join conjuncts as the condition reads them, and
what stayed above. -/
theorem accepts_joined (i : Interp) (l r : Row) (kept : ReadsKept i left right kind p)
    (both : kind.keepsBoth = true) :
    let ls := scopeOf i left
    let rs := scopeOf i right
    let s := Scope.merge (width i left) ls rs
    let place := placementOf kind left right p
    accepts i s o p (mergeRow ls rs l r) = ((place.leftPreds.all fun e => accepts i ls o e l) &&
        (place.rightPreds.all fun e => accepts i rs o e r) &&
        (place.joinPreds.all fun e =>
          (joinConjuncts e).all fun c => conjunctMatches i ls rs o c l.look r.look) &&
        place.remaining.all fun e => accepts i s o e (mergeRow ls rs l r)) := by
  obtain ⟨toLeft,toRight,toJoin⟩ := kept.both both
  simp only
  rw [accepts_placement o kind left right, Placement.preds, all_append, all_append, all_append]
  congr 1
  congr 1
  · congr 1
    · exact all_congr_mem fun e member => accepts_pair_left o _ l r (toLeft e member)
    · exact all_congr_mem fun e member => accepts_pair_right o _ l r (toRight e member)
  · exact all_congr_mem fun e member => (conjunctsMatch_eq_accepts o _ l r (toJoin e member)).symm

theorem leftVariant_placement (kind : JoinKind) (left right : LogicalPlan) (p : TypedExpr)
    (variantLeft : isLeftJoinVariant kind = true) :
    (placementOf kind left right p).rightPreds = [] ∧ (placementOf kind left right p).joinPreds = [] := by
  have stays : ∀ e, (placeConjunct kind (joinColumns left right) e).rightPreds = [] ∧
      (placeConjunct kind (joinColumns left right) e).joinPreds = [] := by
    intro e
    rcases placeConjunct_cases kind (joinColumns left right) e with eq | eq | eq | ⟨free,-⟩
    · rw [eq]
      exact ⟨rfl,rfl⟩
    · rw [eq]
      cases kind <;> first | exact ⟨rfl,rfl⟩ | cases variantLeft
    · rw [eq]
      exact ⟨rfl,rfl⟩
    · cases variantLeft.symm.trans free
  have same : placementOf kind left right p =
      .collect ((splitAnd p).map (placeConjunct kind (joinColumns left right))) := by
    cases kind <;> first | rfl | cases variantLeft
  rw [same]
  simp [collect, flatMap_map, stays]

/-- Inner and cross joins: every destination is legal. -/
theorem rows_pushed_inner (kept : ReadsKept w.interp left right kind p)
    (plainKind : kind = .inner ∨ kind = .cross) :
    rows w ctes o (pushed p left right kind condition) =
      rows w ctes o (original p left right kind condition) := by
  have both : kind.keepsBoth = true := by rcases plainKind with rfl | rfl <;> rfl
  have joins : ∀ pair padLeft padRight on ls rs,
      joinRows kind pair padLeft padRight on ls rs = matched pair on ls rs := by
    rcases plainKind with rfl | rfl <;> intros <;> rfl
  rw [rows_pushed, original, rows, rows, joins, joins, scopeOf_join_both _ _ _ _ both]
  exact matched_pushed _ _ _ _ _ _ _ _ _ fun l _ r _ => accepts_joined o w.interp l r kept both

theorem rows_pushed_leftOuter (kept : ReadsKept w.interp left right .leftOuter p) :
    rows w ctes o (pushed p left right .leftOuter condition) =
      rows w ctes o (original p left right .leftOuter condition) := by
  obtain ⟨noRight,noJoin⟩ := leftVariant_placement .leftOuter left right p rfl
  have joined := fun l r => accepts_joined o w.interp l r kept rfl
  simp only [noJoin, noRight] at joined
  rw [rows_pushed, original, rows, rows, joinRows, joinRows, filter_append,
    filter_append, noJoin, noRight, scopeOf_join_both _ _ _ _ rfl]
  simp only [all_nil, filter_true]
  congr 1
  · rw [filter_matched, filter_matched, matched_filter_left]
    refine matched_congr (fun _ _ _ _ _ => rfl) fun l _ r _ => ?_
    rw [joined]
    ac_rfl
  · rw [filter_lonely_map, filter_lonely_map, filter_filter]
    refine congrArg _ (filter_congr fun l _ => ?_)
    rw [joined]
    ac_rfl

/-- Left semi and anti joins: the filter only ever sees left rows. -/
theorem rows_pushed_leftSemiAnti (semi : kind = .leftSemi ∨ kind = .leftAnti) :
    rows w ctes o (pushed p left right kind condition) =
      rows w ctes o (original p left right kind condition) := by
  have variantLeft : isLeftJoinVariant kind = true := by rcases semi with rfl | rfl <;> rfl
  obtain ⟨noRight,noJoin⟩ := leftVariant_placement kind left right p variantLeft
  rw [rows_pushed, original, rows, rows, noRight, noJoin]
  rcases semi with rfl | rfl
  all_goals
    simp only [all_nil, filter_true, joinRows, scopeOf, paired, lonely, filter_filter]
    refine filter_congr fun l _ => ?_
    rw [accepts_placement o _ left right, Placement.preds, noRight, noJoin]
    simp only [append_nil, all_append]
    ac_rfl

/-! Above a right semi or anti join the filter sees right rows only. -/

def joinAccept (w : World) (o : Outer) (kind : JoinKind) (left right : LogicalPlan) (p : TypedExpr)
    (r : Row) : Bool :=
  (placementOf kind left right p).joinPreds.all fun e => accepts w.interp (scopeOf w.interp right) o e r

def otherAccept (w : World) (o : Outer) (kind : JoinKind) (left right : LogicalPlan) (p : TypedExpr)
    (r : Row) : Bool :=
  ((placementOf kind left right p).rightPreds ++ (placementOf kind left right p).remaining).all
    fun e => accepts w.interp (scopeOf w.interp right) o e r

section
variable {kind : JoinKind} (right' : kind = .rightSemi ∨ kind = .rightAnti)

include right' in
theorem accepts_right (left right : LogicalPlan) (p : TypedExpr) (r : Row) : accepts w.interp (scopeOf w.interp right) o p r =
    (otherAccept w o kind left right p r && joinAccept w o kind left right p r) := by
  have noLeft : (placementOf kind left right p).leftPreds = [] := by
    rcases right' with rfl | rfl <;> rfl
  rw [accepts_placement o kind left right, Placement.preds, noLeft, otherAccept, joinAccept]
  simp only [nil_append, all_append]
  ac_rfl

include right' in
theorem joinPreds_right (kept : ReadsKept w.interp left right kind p) (l r : Row) :
    ((placementOf kind left right p).joinPreds.all fun e => (joinConjuncts e).all fun c =>
      conjunctMatches w.interp (scopeOf w.interp left) (scopeOf w.interp right) o c l.look r.look) =
        joinAccept w o kind left right p r := by
  have takes : ∀ e ∈ (placementOf kind left right p).joinPreds,
      TakesRight w.interp left right e ∧ KeysAligned w.interp left right e := by
    rcases right' with rfl | rfl <;> exact kept
  refine all_congr_mem fun e member => ?_
  obtain ⟨reads,aligned⟩ := takes e member
  rw [conjunctsMatch_eq_accepts o 0 l r aligned, accepts_pair_right o 0 l r reads]

end

theorem rows_pushed_rightSemi (kept : ReadsKept w.interp left right .rightSemi p) :
    rows w ctes o (pushed p left right .rightSemi condition) =
      rows w ctes o (original p left right .rightSemi condition) := by
  rw [rows_pushed, original, rows, rows]
  simp only [joinPreds_right o (.inl rfl) kept, scopeOf]
  simp only [joinRows, paired, Bool.and_comm _ (joinAccept ..), hasPartner_flip_and, filter_filter]
  rw [show (placementOf .rightSemi left right p).leftPreds = [] from rfl]
  simp only [all_nil, filter_true]
  refine filter_congr fun r _ => ?_
  rw [accepts_right o (.inl rfl) left right p, otherAccept, all_append]
  ac_rfl

end

end NovaRocks
