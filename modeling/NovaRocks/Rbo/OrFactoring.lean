import NovaRocks.Rbo.Utils

/-!
Taking equalities that all branches of a disjunction share out of it. What is
left is the disjunction of the branches without them, or nothing when every
branch was made of shared equalities only. A branch may repeat an equality, so
all its copies go.
-/
namespace NovaRocks
open Relational List
variable [CaseFolding]

def splitOrBranches : TypedExpr → List TypedExpr
  | ⟨.binaryOp l .or r, _, _⟩ => splitOrBranches l ++ splitOrBranches r
  | ⟨.nested e, _, _⟩ => splitOrBranches e
  | e => [e]

def trueLiteral : TypedExpr :=
  ⟨.literal (.bool true), .boolean, false⟩

def isTrueLiteral (e : TypedExpr) : Bool :=
  match e.kind with
  | .literal (.bool true) => true
  | _ => false

/-- A branch without the shared equalities; TRUE when nothing else was in it. -/
def branchRest (common : List TypedExpr) (conjuncts : List TypedExpr) : TypedExpr :=
  match conjuncts.filter fun c => !common.any (exprEq c) with
  | [] => trueLiteral
  | e :: rest => combineAnd e rest

/-- Left-nested disjunction of a nonempty list, given as head and tail. -/
def combineOr (first : TypedExpr) (rest : List TypedExpr) : TypedExpr :=
  rest.foldl (fun acc b => ⟨.binaryOp acc .or b, .boolean, false⟩) first

/-- `candidate` says which equalities may be taken out. -/
def factorCommonEq (candidate : TypedExpr → Bool) (e : TypedExpr) : List TypedExpr × Option TypedExpr :=
  match (splitOrBranches e).map joinConjuncts with
  | first :: second :: others =>
    let common := first.filter fun c =>
      candidate c && (second :: others).all fun branch => branch.any fun d => exprEq d c
    if common.isEmpty then ([], none)
    else
      let rest := branchRest common first
      let rests := (second :: others).map (branchRest common)
      if (rest :: rests).all isTrueLiteral then (common, none)
      else (common, some (combineOr rest rests))
  | _ => ([], none)

section
variable (i : Interp) (env : Env)

theorem truthOf_of_kind (same : a.kind = b.kind) : truthOf i env a = truthOf i env b := by
  obtain ⟨k,t,n⟩ := a
  obtain ⟨k',t',n'⟩ := b
  subst same
  cases k with
  | unaryOp op e => cases op <;> simp [truthOf, eval]
  | _ => simp [truthOf, eval]

theorem holds_splitOrBranches (e : TypedExpr) :
    (truthOf i env e).holds = (splitOrBranches e).any fun b => (truthOf i env b).holds := by
  fun_induction splitOrBranches e with
  | case1 l r t n left right =>
    rw [truthOf_or, Kleene.holds_or, left, right, any_append]
  | case2 e t n inner => rw [truthOf_nested, inner]
  | case3 e _ _ => simp

theorem holds_branches (e : TypedExpr) :
    (truthOf i env e).holds = ((splitOrBranches e).map joinConjuncts).any fun branch =>
      branch.all fun c => (truthOf i env c).holds := by
  rw [holds_splitOrBranches, any_map]
  congr 1
  funext b
  exact holds_joinConjuncts i env b

theorem holds_combineOr (first : TypedExpr) (rest : List TypedExpr) :
    (truthOf i env (combineOr first rest)).holds =
      (first :: rest).any fun b => (truthOf i env b).holds := by
  induction rest generalizing first with
  | nil => simp [combineOr]
  | cons b rest ih =>
    rw [combineOr, foldl_cons]
    have step := ih ⟨.binaryOp first .or b,.boolean,false⟩
    rw [combineOr] at step
    rw [step, any_cons, truthOf_or, Kleene.holds_or, any_cons, any_cons, Bool.or_assoc]

theorem holds_trueLiteral (literal : isTrueLiteral e = true) : (truthOf i env e).holds = true := by
  unfold isTrueLiteral at literal
  split at literal
  · rename_i kind
    rw [truthOf_of_kind i env (b := trueLiteral) kind]
    rfl
  · simp at literal

theorem holds_branchRest (common conjuncts : List TypedExpr) :
    (truthOf i env (branchRest common conjuncts)).holds =
      (conjuncts.filter fun c => !common.any (exprEq c)).all fun c => (truthOf i env c).holds := by
  unfold branchRest
  split
  · rename_i empty
    rw [empty]
    rfl
  · rename_i e rest kept
    rw [kept]
    exact holds_combineAnd i env e rest

/-- A branch that has the shared conjuncts holds when they and the rest of it hold. -/
theorem holds_branch_split {common conjuncts : List TypedExpr}
    (shared : ∀ c ∈ common, ∃ d ∈ conjuncts, d.kind = c.kind) :
    (conjuncts.all fun c => (truthOf i env c).holds) = ((common.all fun c => (truthOf i env c).holds) &&
        (conjuncts.filter fun c => !common.any (exprEq c)).all fun c => (truthOf i env c).holds) := by
  rw [Bool.eq_iff_iff, Bool.and_eq_true]
  simp only [all_eq_true, mem_filter, Bool.not_eq_true', and_imp]
  constructor
  · intro all
    refine ⟨fun c member => ?_,fun c member _ => all c member⟩
    obtain ⟨d,inBranch,same⟩ := shared c member
    rw [← truthOf_of_kind i env same]
    exact all d inBranch
  · rintro ⟨commonHold,restHold⟩ c member
    cases shadow : common.any (exprEq c) with
    | false => exact restHold c member shadow
    | true =>
      obtain ⟨d,inCommon,same⟩ := any_eq_true.mp shadow
      rw [truthOf_of_kind i env (exprEq_kind same)]
      exact commonHold d inCommon

theorem holds_factored {common : List TypedExpr} {branches : List (List TypedExpr)}
    (left : ∀ branch, (truthOf i env (restOf branch)).holds =
      (branch.filter fun c => !common.any (exprEq c)).all fun c => (truthOf i env c).holds)
    (shared : ∀ branch ∈ branches, ∀ c ∈ common, ∃ d ∈ branch, d.kind = c.kind) :
    (branches.any fun branch => branch.all fun c => (truthOf i env c).holds) =
      ((common.all fun c => (truthOf i env c).holds) &&
        (branches.map restOf).any fun b => (truthOf i env b).holds) := by
  induction branches with
  | nil => simp
  | cons branch branches ih =>
    rw [any_cons, ih fun other member => shared other (mem_cons_of_mem _ member),
      holds_branch_split i env (shared branch mem_cons_self), ← left, map_cons, any_cons,
      Bool.and_or_distrib_left]

end

omit [CaseFolding] in
theorem factorCommonEq_none (candidate : TypedExpr → Bool) (e : TypedExpr) :
    (factorCommonEq candidate e).1 = [] → (factorCommonEq candidate e).2 = none := by
  unfold factorCommonEq
  split
  · dsimp only
    split_ifs with found literals
    · exact fun _ => rfl
    · exact fun _ => rfl
    · exact fun none' => absurd (isEmpty_iff.mpr none') found
  · exact fun _ => rfl

omit [CaseFolding] in
theorem factorCommonEq_cases (factored : factorCommonEq candidate e = (common, rest)) (found : common ≠ []) :
    ∃ first others, (splitOrBranches e).map joinConjuncts = first :: others ∧
      (∀ c ∈ common, c ∈ first ∧ candidate c = true ∧ ∀ branch ∈ others, ∃ d ∈ branch, exprEq d c = true) ∧
      (rest = none ∧ (∀ branch ∈ first :: others, isTrueLiteral (branchRest common branch) = true) ∨
        rest = some (combineOr (branchRest common first) (others.map (branchRest common)))) := by
  unfold factorCommonEq at factored
  split at factored
  · rename_i first second others branches
    simp only at factored
    split at factored
    · simp only [Prod.mk.injEq] at factored
      exact absurd factored.1.symm found
    · refine ⟨first,second :: others,branches,?_⟩
      have inFirst : ∀ c ∈ first.filter (fun c => candidate c &&
          (second :: others).all fun branch => branch.any fun d => exprEq d c),
          c ∈ first ∧ candidate c = true ∧
            ∀ branch ∈ second :: others, ∃ d ∈ branch, exprEq d c = true := by
        intro c member
        simp only [mem_filter, Bool.and_eq_true, all_eq_true, any_eq_true] at member
        exact ⟨member.1,member.2.1,member.2.2⟩
      split at factored
      · rename_i literals
        obtain ⟨rfl,rfl⟩ := factored
        simpa [all_eq_true] using literals
      · simp only [Prod.mk.injEq] at factored
        obtain ⟨rfl,rfl⟩ := factored
        exact ⟨inFirst,.inr rfl⟩
  · simp only [Prod.mk.injEq] at factored
    exact absurd factored.1.symm found

theorem factorCommonEq_holds (i : Interp) (env : Env)
    (factored : factorCommonEq candidate e = (common, rest)) (found : common ≠ []) :
    (truthOf i env e).holds = ((common.all fun c => (truthOf i env c).holds) &&
        rest.toList.all fun c => (truthOf i env c).holds) := by
  obtain ⟨first,others,branches,taken,outcome⟩ := factorCommonEq_cases factored found
  have shared : ∀ branch ∈ first :: others, ∀ c ∈ common, ∃ d ∈ branch, d.kind = c.kind := by
    intro branch member c inCommon
    rcases mem_cons.mp member with rfl | other
    · exact ⟨c,(taken c inCommon).1,rfl⟩
    · obtain ⟨d,inBranch,same⟩ := (taken c inCommon).2.2 branch other
      exact ⟨d,inBranch,exprEq_kind same⟩
  rw [holds_branches, branches, holds_factored i env (holds_branchRest i env common) shared]
  rcases outcome with ⟨rfl,literals⟩ | rfl
  · simp only [map_cons, any_cons, Option.toList_none, all_nil]
    rw [holds_trueLiteral i env (literals first (by simp)), Bool.true_or]
  · rw [Option.toList_some, all_cons, all_nil, Bool.and_true, holds_combineOr]
    rfl

section
variable (label : Option (ExprKind → String))

theorem refsWith_splitOrBranches (e : TypedExpr) :
    refsWith label e = (splitOrBranches e).flatMap (refsWith label) := by
  fun_induction splitOrBranches e with
  | case1 l r t n left right => rw [refsWith, left, right, flatMap_append]
  | case2 e t n inner => rw [refsWith, inner]
  | case3 e _ _ => simp

theorem refsWith_branches
    (inBranches : branch ∈ (splitOrBranches e).map joinConjuncts) (inBranch : c ∈ branch)
    (read : r ∈ refsWith label c) : r ∈ refsWith label e := by
  obtain ⟨b,member,rfl⟩ := mem_map.mp inBranches
  rw [refsWith_splitOrBranches, mem_flatMap]
  refine ⟨b,member,?_⟩
  rw [refsWith_joinConjuncts, mem_flatMap]
  exact ⟨c,inBranch,read⟩

theorem refsWith_branchRest (read : r ∈ refsWith label (branchRest common conjuncts)) :
    ∃ c ∈ conjuncts, r ∈ refsWith label c := by
  unfold branchRest at read
  split at read
  · simp [trueLiteral, refsWith] at read
  · rename_i e rest kept
    rw [refsWith_combineAnd, ← kept, mem_flatMap] at read
    obtain ⟨c,member,inRefs⟩ := read
    exact ⟨c,(mem_filter.mp member).1,inRefs⟩

theorem refsWith_combineOr (first : TypedExpr) (rest : List TypedExpr) :
    refsWith label (combineOr first rest) = (first :: rest).flatMap (refsWith label) := by
  induction rest generalizing first with
  | nil => simp [combineOr]
  | cons b rest ih =>
    have step := ih ⟨.binaryOp first .or b,.boolean,false⟩
    rw [combineOr] at step
    rw [combineOr, foldl_cons, step]
    simp [refsWith]

theorem factorCommonEq_refs (factored : factorCommonEq candidate e = (common, rest)) (found : common ≠ [])
    (member : c ∈ common ++ rest.toList) (read : r ∈ refsWith label c) : r ∈ refsWith label e := by
  obtain ⟨first,others,branches,taken,outcome⟩ := factorCommonEq_cases factored found
  rcases mem_append.mp member with inCommon | inRest
  · refine refsWith_branches label ?_ (taken c inCommon).1 read
    rw [branches]
    simp
  · rcases outcome with ⟨rfl,-⟩ | rfl
    · simp at inRest
    · rw [Option.toList_some, mem_singleton] at inRest
      subst inRest
      rw [refsWith_combineOr, ← map_cons, flatMap_map, mem_flatMap] at read
      obtain ⟨branch,inBranches,inRest⟩ := read
      obtain ⟨d,inBranch,inRefs⟩ := refsWith_branchRest label inRest
      refine refsWith_branches label ?_ inBranch inRefs
      rw [branches]
      exact inBranches

end

end NovaRocks
