import NovaRocks.Rbo.PushToJoinSound

/-!
The joins for which the pushdown is not always right, and the exact condition under
which it is. A right or full outer join gains the padded rows that a conjunct, once it
is part of the join condition, no longer removes; a right anti join gains the rows that
such a conjunct leaves without a partner.
-/
namespace NovaRocks
open Relational List

section
variable [CaseFolding] (w : World) (ctes : Nat → List Row) (o : Outer) (place : Placement)
  (left right : LogicalPlan) (condition : Option TypedExpr)

def joinedScope : Scope :=
  .merge (width w.interp left) (scopeOf w.interp left) (scopeOf w.interp right)

def joinedRow (l r : Row) : Row :=
  mergeRow (scopeOf w.interp left) (scopeOf w.interp right) l r

def onMatches (l r : Row) : Bool :=
  conditionMatches w.interp (scopeOf w.interp left) (scopeOf w.interp right) o condition l r

def mergedAccept (l r : Row) : Bool :=
  place.joinPreds.all fun e => accepts w.interp (joinedScope w left right) o e (joinedRow w left right l r)

def keptAccept (l r : Row) : Bool :=
  (place.rightPreds ++ place.remaining).all fun e =>
    accepts w.interp (joinedScope w left right) o e (joinedRow w left right l r)

/-- A right row whose padded form passes the other conjuncts, and that has no
partner once the merged ones count, had no partner before and its padded form
passes the merged ones too. -/
def PadRightSafe : Prop :=
  let pad := nullRow (width w.interp left)
  ∀ r ∈ rows w ctes o right, keptAccept w o place left right pad r = true →
    (∀ l ∈ rows w ctes o left, onMatches w o left right condition l r = true →
      mergedAccept w o place left right l r = false) →
    (∀ l ∈ rows w ctes o left, onMatches w o left right condition l r = false) ∧
      mergedAccept w o place left right pad r = true

/-- The same for the left rows of a full outer join. -/
def PadLeftSafe : Prop :=
  let pad := nullRow (width w.interp right)
  ∀ l ∈ rows w ctes o left, keptAccept w o place left right l pad = true →
    (∀ r ∈ rows w ctes o right, onMatches w o left right condition l r = true →
      mergedAccept w o place left right l r = false) →
    (∀ r ∈ rows w ctes o right, onMatches w o left right condition l r = false) ∧
      mergedAccept w o place left right l pad = true

/-- When a pushdown that keeps what the conjuncts read keeps the rows. -/
def PushSafe (p : TypedExpr) (kind : JoinKind) : Prop :=
  let place := placementOf kind left right p
  match kind with
  | .rightOuter => PadRightSafe w ctes o place left right condition
  | .fullOuter => PadLeftSafe w ctes o place left right condition ∧
      PadRightSafe w ctes o place left right condition
  | .rightAnti => ∀ r ∈ rows w ctes o right,
      otherAccept w o kind left right p r = true → joinAccept w o kind left right p r = true
  | _ => True

def acceptedPairs (p : TypedExpr) : List Row :=
  matched (joinedRow w left right)
    (fun l r => onMatches w o left right condition l r &&
      accepts w.interp (joinedScope w left right) o p (joinedRow w left right l r))
    (rows w ctes o left) (rows w ctes o right)

def newMatches (l r : Row) : Bool :=
  onMatches w o left right condition l r && mergedAccept w o place left right l r

def rightBefore (p : TypedExpr) (r : Row) : Bool :=
  !hasPartner (flip (onMatches w o left right condition)) (rows w ctes o left) r &&
    accepts w.interp (joinedScope w left right) o p
      (joinedRow w left right (nullRow (width w.interp left)) r)

def rightAfter (r : Row) : Bool :=
  !hasPartner (flip (newMatches w o place left right condition)) (rows w ctes o left) r &&
    keptAccept w o place left right (nullRow (width w.interp left)) r

def leftBefore (p : TypedExpr) (l : Row) : Bool :=
  !hasPartner (onMatches w o left right condition) (rows w ctes o right) l &&
    accepts w.interp (joinedScope w left right) o p
      (joinedRow w left right l (nullRow (width w.interp right)))

def leftAfter (l : Row) : Bool :=
  !hasPartner (newMatches w o place left right condition) (rows w ctes o right) l &&
    keptAccept w o place left right l (nullRow (width w.interp right))

end

section
variable {others : List Row} {on merged : Row → Bool}

theorem padded_weaker (before : (!others.any on && (padMerged && padKept)) = true) :
    (!others.any (fun other => on other && merged other) && padKept) = true := by
  simp only [Bool.and_eq_true, Bool.not_eq_true', any_eq_false] at before ⊢
  exact ⟨fun other member both => before.1 other member both.1,before.2.2⟩

theorem padded_back_iff :
    ((!others.any (fun other => on other && merged other) && padKept) = true →
      (!others.any on && (padMerged && padKept)) = true) ↔
      (padKept = true → (∀ other ∈ others, on other = true → merged other = false) →
        (∀ other ∈ others, on other = false) ∧ padMerged = true) := by
  simp only [Bool.and_eq_true, Bool.not_eq_true', any_eq_false, not_and, Bool.not_eq_true, and_imp]
  constructor
  · intro back kept alone
    have before := back alone kept
    exact ⟨before.1,before.2.1⟩
  · intro safe alone kept
    have fresh := safe kept alone
    exact ⟨fresh.1,fresh.2,kept⟩

end

section
variable [CaseFolding] {w : World} {kind : JoinKind} (ctes : Nat → List Row) (o : Outer)
  (outer : kind = .rightOuter ∨ kind = .fullOuter) (kept : ReadsKept w.interp left right kind p)

include outer in
theorem outer_leftPreds : (placementOf kind left right p).leftPreds = [] := by
  rcases outer with rfl | rfl <;> rfl

include outer in
theorem outer_accepts (l r : Row) :
    accepts w.interp (joinedScope w left right) o p (joinedRow w left right l r) =
      (mergedAccept w o (placementOf kind left right p) left right l r &&
        keptAccept w o (placementOf kind left right p) left right l r) := by
  rw [accepts_placement o kind left right, Placement.preds, outer_leftPreds outer, mergedAccept, keptAccept]
  simp only [nil_append, all_append]
  ac_rfl

include outer kept in
theorem outer_merged (l r : Row) :
    ((placementOf kind left right p).joinPreds.all fun e =>
      (joinConjuncts e).all fun c => conjunctMatches w.interp (scopeOf w.interp left)
        (scopeOf w.interp right) o c l.look r.look) =
      mergedAccept w o (placementOf kind left right p) left right l r := by
  have both : kind.keepsBoth = true := by rcases outer with rfl | rfl <;> rfl
  exact all_congr_mem fun e member => conjunctsMatch_eq_accepts o _ l r ((kept.both both).2.2 e member)

include outer kept in
theorem outer_keeps (l r : Row) :
    (((placementOf kind left right p).rightPreds.all fun e =>
        accepts w.interp (scopeOf w.interp right) o e r) &&
      (placementOf kind left right p).remaining.all fun e =>
        accepts w.interp (joinedScope w left right) o e (joinedRow w left right l r)) =
    keptAccept w o (placementOf kind left right p) left right l r := by
  have both : kind.keepsBoth = true := by rcases outer with rfl | rfl <;> rfl
  rw [keptAccept, all_append]
  congr 1
  exact all_congr_mem fun e member => (accepts_pair_right o _ l r ((kept.both both).2.1 e member)).symm

section
variable (condition : Option TypedExpr)

include outer in
theorem rightBefore_imp_rightAfter (r : Row) (before : rightBefore w ctes o left right condition p r = true) :
    rightAfter w ctes o (placementOf kind left right p) left right condition r = true := by
  rw [rightBefore, outer_accepts o outer] at before
  exact padded_weaker before

include outer in
theorem leftBefore_imp_leftAfter (l : Row) (before : leftBefore w ctes o left right condition p l = true) :
    leftAfter w ctes o (placementOf kind left right p) left right condition l = true := by
  rw [leftBefore, outer_accepts o outer] at before
  exact padded_weaker before

include outer in
theorem rightAfter_back_iff :
    (∀ r ∈ rows w ctes o right,
      rightAfter w ctes o (placementOf kind left right p) left right condition r = true →
        rightBefore w ctes o left right condition p r = true) ↔
      PadRightSafe w ctes o (placementOf kind left right p) left right condition := by
  refine forall₂_congr fun r _ => ?_
  rw [rightBefore, outer_accepts o outer]
  exact padded_back_iff

include outer in
theorem leftAfter_back_iff :
    (∀ l ∈ rows w ctes o left,
      leftAfter w ctes o (placementOf kind left right p) left right condition l = true →
        leftBefore w ctes o left right condition p l = true) ↔
      PadLeftSafe w ctes o (placementOf kind left right p) left right condition := by
  refine forall₂_congr fun l _ => ?_
  rw [leftBefore, outer_accepts o outer]
  exact padded_back_iff

end

theorem rows_original_rightOuter :
    rows w ctes o (original p left right .rightOuter condition) =
      acceptedPairs w ctes o left right condition p ++
        ((rows w ctes o right).filter (rightBefore w ctes o left right condition p)).map
          (joinedRow w left right (nullRow (width w.interp left))) := by
  rw [original, rows, rows, joinRows, filter_append, filter_matched, filter_lonely_map]
  rfl

theorem rows_original_fullOuter :
    rows w ctes o (original p left right .fullOuter condition) =
      acceptedPairs w ctes o left right condition p ++
        ((rows w ctes o left).filter (leftBefore w ctes o left right condition p)).map
          (fun l => joinedRow w left right l (nullRow (width w.interp right))) ++
        ((rows w ctes o right).filter (rightBefore w ctes o left right condition p)).map
          (joinedRow w left right (nullRow (width w.interp left))) := by
  rw [original, rows, rows, joinRows, filter_append, filter_append, filter_matched,
    filter_lonely_map, filter_lonely_map]
  rfl

include outer kept in
theorem filter_pushed_matched (condition : Option TypedExpr) :
    (matched (joinedRow w left right)
      (newMatches w o (placementOf kind left right p) left right condition)
      (rows w ctes o left) ((rows w ctes o right).filter fun row =>
        (placementOf kind left right p).rightPreds.all fun e =>
          accepts w.interp (scopeOf w.interp right) o e row)).filter (fun row =>
        (placementOf kind left right p).remaining.all fun e =>
          accepts w.interp (joinedScope w left right) o e row) =
      acceptedPairs w ctes o left right condition p := by
  rw [filter_matched, matched_filter_right, acceptedPairs]
  refine matched_congr (fun _ _ _ _ _ => rfl) fun l _ r _ => ?_
  rw [outer_accepts o outer, ← outer_keeps o outer kept, newMatches]
  ac_rfl

end

section
variable [CaseFolding] {w : World} (ctes : Nat → List Row) (o : Outer)

theorem rows_pushed_rightOuter (kept : ReadsKept w.interp left right .rightOuter p) :
    rows w ctes o (pushed p left right .rightOuter condition) =
      acceptedPairs w ctes o left right condition p ++
        ((rows w ctes o right).filter
          (rightAfter w ctes o (placementOf .rightOuter left right p) left right condition)).map
          (joinedRow w left right (nullRow (width w.interp left))) := by
  rw [rows_pushed, outer_leftPreds (.inl rfl)]
  simp only [outer_merged o (.inl rfl) kept, all_nil, filter_true]
  rw [joinRows, filter_append, filter_lonely_map, filter_filter,
    ← filter_pushed_matched ctes o (.inl rfl) kept]
  congr 1
  refine congrArg _ (filter_congr fun r _ => ?_)
  rw [rightAfter, ← outer_keeps o (.inl rfl) kept, Bool.and_comm (_ && _), Bool.and_left_comm]
  rfl

theorem rows_pushed_fullOuter (kept : ReadsKept w.interp left right .fullOuter p) :
    rows w ctes o (pushed p left right .fullOuter condition) =
      acceptedPairs w ctes o left right condition p ++
        ((rows w ctes o left).filter
          (leftAfter w ctes o (placementOf .fullOuter left right p) left right condition)).map
          (fun l => joinedRow w left right l (nullRow (width w.interp right))) ++
        ((rows w ctes o right).filter
          (rightAfter w ctes o (placementOf .fullOuter left right p) left right condition)).map
          (joinedRow w left right (nullRow (width w.interp left))) := by
  have noRight : (placementOf .fullOuter left right p).rightPreds = [] := rfl
  have pairs := filter_pushed_matched ctes o (.inr rfl) kept condition
  simp only [noRight, all_nil, filter_true] at pairs
  rw [rows_pushed, outer_leftPreds (.inr rfl), noRight]
  simp only [outer_merged o (.inr rfl) kept, all_nil, filter_true]
  rw [joinRows, filter_append, filter_append, filter_lonely_map, filter_lonely_map, ← pairs]
  rfl

/-- A right anti join keeps a right row that has a partner if a conjunct in the
condition rejects it. -/
theorem rows_pushed_rightAnti_iff (kept : ReadsKept w.interp left right .rightAnti p) :
    SameBag (rows w ctes o (pushed p left right .rightAnti condition))
        (rows w ctes o (original p left right .rightAnti condition)) ↔
      PushSafe w ctes o left right condition p .rightAnti := by
  rw [rows_pushed, original, rows, rows]
  simp only [joinPreds_right o (.inr rfl) kept, scopeOf]
  simp only [joinRows, lonely, Bool.and_comm _ (joinAccept ..), hasPartner_flip_and, filter_filter]
  rw [show (placementOf .rightAnti left right p).leftPreds = [] from rfl]
  simp only [all_nil, filter_true]
  rw [SameBag, perm_filter_iff]
  refine forall₂_congr fun r _ => ?_
  rw [accepts_right o (.inr rfl) left right p, otherAccept, all_append]
  generalize joinAccept w o .rightAnti left right p r = joins
  generalize hasPartner _ _ r = partner
  generalize ((placementOf .rightAnti left right p).rightPreds.all _) = rights
  generalize ((placementOf .rightAnti left right p).remaining.all _) = above
  revert joins partner rights above
  decide

end

section
variable [CaseFolding] (w : World) (ctes : Nat → List Row) (o : Outer) (p : TypedExpr)
  (left right : LogicalPlan) (kind : JoinKind) (condition : Option TypedExpr)

theorem placed_inScope (inP : inScope i s p = true)
    (member : e ∈ (placementOf kind left right p).preds) : inScope i s e = true := by
  rw [inScope, all_eq_true] at inP ⊢
  exact fun r read => inP r (placeAll_reads i kind _ p e member r read)

theorem wellScoped_pushed_of_original (kept : ReadsKept w.interp left right kind p)
    (valid : wellScoped w.interp (original p left right kind condition) = true) :
    wellScoped w.interp (pushed p left right kind condition) = true := by
  obtain ⟨leftValid,rightValid,onValid,inP⟩ :=
    (wellScoped_original p left right kind condition w.interp).mp valid
  have placed : ∀ e ∈ (placementOf kind left right p).preds,
      inScope w.interp (scopeOf w.interp (.join left right kind condition)) e = true :=
    fun e member => placed_inScope p left right kind inP member
  simp only [Placement.preds, forall_mem_append] at placed
  obtain ⟨⟨⟨inLeft,inRight⟩,inJoin⟩,above⟩ := placed
  refine (wellScoped_pushed p left right kind condition w.interp).mpr
    ⟨⟨leftValid,?_⟩,⟨rightValid,?_⟩,forall_mem_append.mpr ⟨onValid,?_⟩,above⟩
  · cases kind with
    | leftSemi | leftAnti => exact inLeft
    | rightSemi | rightAnti => exact forall_mem_nil _
    | _ => exact fun e member => (kept.1 e member).inScope
  · cases kind with
    | leftSemi | leftAnti =>
      rw [(leftVariant_placement _ left right p rfl).1]
      exact forall_mem_nil _
    | rightSemi | rightAnti => exact inRight
    | _ => exact fun e member => (kept.2.1 e member).inScope
  · cases kind with
    | leftSemi | leftAnti =>
      rw [(leftVariant_placement _ left right p rfl).2]
      exact forall_mem_nil _
    | rightSemi | rightAnti =>
      intro e member
      refine all_eq_true.mpr fun r read => ?_
      have found : (scopeOf w.interp right).resolves r = true := all_eq_true.mp (inJoin e member) r read
      rw [Scope.resolves_merge, found, Bool.or_true]
    | _ => exact inJoin

end

def orders : LogicalPlan := .scan (.whole "orders" (some "o") ["amount", "customer"])

def limits : LogicalPlan := .scan (.whole "limits" (some "l") ["cap", "owner"])

def overLimit : TypedExpr := .test (.column (some "o") "amount") .gt (.column (some "l") "cap")

def sameCustomer : TypedExpr :=
  .test (.column (some "o") "customer") .eq (.column (some "l") "owner")

def oneOrder : World := .ofTables
  [("orders", ["amount", "customer"], [[.int 3, .int 7]]),
    ("limits", ["cap", "owner"], [[.int 5, .int 7]])]

def bigOrder : World := .ofTables
  [("orders", ["amount", "customer"], [[.int 8, .int 7]]),
    ("limits", ["cap", "owner"], [[.int 5, .int 7]])]

-- an inner join whose inputs both have a `y`: the filter reads the left one, the hash key the right one
example :
    let w := World.ofTables [("b", ["x", "y"], [[.int 1, .int 1]]), ("c", ["y"], [[.int 2]])]
    let b := LogicalPlan.scan (.whole "b" none ["x", "y"])
    let c := LogicalPlan.scan (.whole "c" none ["y"])
    let p := TypedExpr.test (.column none "x") .eq (.column none "y")
    (rows w (fun _ => []) (fun _ => .null) (original p b c .inner none)).length = 1 ∧
      (rows w (fun _ => []) (fun _ => .null) (pushed p b c .inner none)).length = 0 := by
  decide

end NovaRocks
