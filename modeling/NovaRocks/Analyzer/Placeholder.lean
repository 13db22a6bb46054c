import NovaRocks.Planner.Planner
import NovaRocks.Sql.Closed

/-!
Subquery placeholders in predicates. Rewriting a subquery into a join takes its
placeholder out of the predicate, or puts an expression over the joined row in
its place. Taking it out keeps the predicate's meaning only where the
placeholder is a conjunct.
-/
namespace NovaRocks
open Relational List
open Bool (and_eq_true or_eq_true)

def isPlaceholder (id : Nat) (e : TypedExpr) : Bool :=
  match e.kind with
  | .subqueryPlaceholder pid _ _ => pid = id
  | _ => false

def boolLiteral (b : Bool) : TypedExpr :=
  ⟨.literal (.bool b), .boolean, false⟩

/-- Below AND and OR the placeholder's side is dropped, in parentheses it
becomes TRUE; under any other operator it stays. -/
def removePlaceholderFromExpr (id : Nat) : TypedExpr → TypedExpr
  | ⟨.binaryOp l .and r, _, _⟩ =>
    if isPlaceholder id l && isPlaceholder id r then boolLiteral true
    else if isPlaceholder id l then removePlaceholderFromExpr id r
    else if isPlaceholder id r then removePlaceholderFromExpr id l
    else ⟨.binaryOp (removePlaceholderFromExpr id l) .and (removePlaceholderFromExpr id r),
      .boolean, false⟩
  | ⟨.binaryOp l .or r, _, _⟩ =>
    if isPlaceholder id l && isPlaceholder id r then boolLiteral false
    else if isPlaceholder id l then removePlaceholderFromExpr id r
    else if isPlaceholder id r then removePlaceholderFromExpr id l
    else ⟨.binaryOp (removePlaceholderFromExpr id l) .or (removePlaceholderFromExpr id r),
      .boolean, false⟩
  | ⟨.nested e, t, n⟩ =>
    if isPlaceholder id e then boolLiteral true else ⟨.nested (removePlaceholderFromExpr id e), t, n⟩
  | e => e

def removePlaceholderFromFilter (id : Nat) : Option TypedExpr → Option TypedExpr
  | none => none
  | some e => if isPlaceholder id e then none else some (removePlaceholderFromExpr id e)

/-- Looks only below the operators a boolean predicate is usually made of. -/
def hasPlaceholder (id : Nat) : TypedExpr → Bool
  | ⟨.subqueryPlaceholder pid _ _, _, _⟩ => pid = id
  | ⟨.binaryOp l _ r, _, _⟩ => hasPlaceholder id l || hasPlaceholder id r
  | ⟨.nested e, _, _⟩ => hasPlaceholder id e
  | ⟨.unaryOp _ e, _, _⟩ => hasPlaceholder id e
  | ⟨.isNull e _, _, _⟩ => hasPlaceholder id e
  | _ => false

def isPlaceholderInsideOr (id : Nat) : TypedExpr → Bool
  | ⟨.binaryOp l .or r, _, _⟩ => hasPlaceholder id l || hasPlaceholder id r
  | ⟨.binaryOp l .and r, _, _⟩ => isPlaceholderInsideOr id l || isPlaceholderInsideOr id r
  | ⟨.nested e, _, _⟩ => isPlaceholderInsideOr id e
  | _ => false

mutual
/-- Puts `e'` where the placeholder stands; sort keys are not entered. -/
def replacePlaceholderInExpr (id : Nat) (e' : TypedExpr) : TypedExpr → TypedExpr
  | ⟨.subqueryPlaceholder pid kind t', t, n⟩ =>
    if pid = id then e' else ⟨.subqueryPlaceholder pid kind t', t, n⟩
  | ⟨.binaryOp l op r, t, n⟩ =>
    ⟨.binaryOp (replacePlaceholderInExpr id e' l) op (replacePlaceholderInExpr id e' r), t, n⟩
  | ⟨.unaryOp op e, t, n⟩ => ⟨.unaryOp op (replacePlaceholderInExpr id e' e), t, n⟩
  | ⟨.nested e, t, n⟩ => ⟨.nested (replacePlaceholderInExpr id e' e), t, n⟩
  | ⟨.functionCall name args distinct, t, n⟩ =>
    ⟨.functionCall name (replacePlaceholderInList id e' args) distinct, t, n⟩
  | ⟨.aggregateCall name args distinct orderBy, t, n⟩ =>
    ⟨.aggregateCall name (replacePlaceholderInList id e' args) distinct orderBy, t, n⟩
  | ⟨.cast e target, t, n⟩ => ⟨.cast (replacePlaceholderInExpr id e' e) target, t, n⟩
  | ⟨.isNull e negated, t, n⟩ => ⟨.isNull (replacePlaceholderInExpr id e' e) negated, t, n⟩
  | ⟨.case operand whenThen elseExpr, t, n⟩ =>
    ⟨.case (replacePlaceholderInOption id e' operand) (replacePlaceholderInBranches id e' whenThen)
      (replacePlaceholderInOption id e' elseExpr), t, n⟩
  | ⟨.between e low high negated, t, n⟩ =>
    ⟨.between (replacePlaceholderInExpr id e' e) (replacePlaceholderInExpr id e' low)
      (replacePlaceholderInExpr id e' high) negated, t, n⟩
  | ⟨.like e pattern negated, t, n⟩ =>
    ⟨.like (replacePlaceholderInExpr id e' e) (replacePlaceholderInExpr id e' pattern) negated,
      t, n⟩
  | ⟨.inList e list negated, t, n⟩ =>
    ⟨.inList (replacePlaceholderInExpr id e' e) (replacePlaceholderInList id e' list) negated,
      t, n⟩
  | ⟨.isTruthValue e value negated, t, n⟩ =>
    ⟨.isTruthValue (replacePlaceholderInExpr id e' e) value negated, t, n⟩
  | ⟨.windowCall name args distinct partitionBy orderBy frame, t, n⟩ =>
    ⟨.windowCall name (replacePlaceholderInList id e' args) distinct
      (replacePlaceholderInList id e' partitionBy) orderBy frame, t, n⟩
  | ⟨.columnRef q c, t, n⟩ => ⟨.columnRef q c, t, n⟩
  | ⟨.literal value, t, n⟩ => ⟨.literal value, t, n⟩
def replacePlaceholderInList (id : Nat) (e' : TypedExpr) : List TypedExpr → List TypedExpr
  | [] => []
  | e :: rest => replacePlaceholderInExpr id e' e :: replacePlaceholderInList id e' rest
def replacePlaceholderInOption (id : Nat) (e' : TypedExpr) : Option TypedExpr → Option TypedExpr
  | none => none
  | some e => some (replacePlaceholderInExpr id e' e)
def replacePlaceholderInBranches (id : Nat) (e' : TypedExpr) :
    List (TypedExpr × TypedExpr) → List (TypedExpr × TypedExpr)
  | [] => []
  | (w, t) :: rest =>
    (replacePlaceholderInExpr id e' w, replacePlaceholderInExpr id e' t) ::
      replacePlaceholderInBranches id e' rest
end

def replacePlaceholderInFilter (id : Nat) (e' : TypedExpr) (filter : Option TypedExpr) : Option TypedExpr :=
  filter.map (replacePlaceholderInExpr id e')

/-- The placeholder is a conjunct of the predicate and occurs nowhere else. -/
def atConjunct (id : Nat) : TypedExpr → Bool
  | ⟨.binaryOp l .and r, _, _⟩ =>
    (atConjunct id l && !(placeholdersIn r).contains id) ||
      (!(placeholdersIn l).contains id && atConjunct id r)
  | ⟨.nested e, _, _⟩ => atConjunct id e
  | e => isPlaceholder id e

section
variable {id : Nat}

theorem isPlaceholder_mem (here : isPlaceholder id e = true) : id ∈ placeholdersIn e := by
  obtain ⟨kind,t,n⟩ := e
  cases kind <;> simp_all [isPlaceholder, placeholdersIn]

theorem hasPlaceholder_mem (e : TypedExpr) (found : hasPlaceholder id e = true) : id ∈ placeholdersIn e := by
  fun_induction hasPlaceholder id e with
  | case1 pid _ _ t n => simpa [placeholdersIn, eq_comm] using found
  | case2 l op r t n ihl ihr =>
    rw [or_eq_true] at found
    rw [placeholdersIn, mem_append]
    exact found.imp ihl ihr
  | case3 _ _ _ ih | case4 _ _ _ _ ih | case5 _ _ _ _ ih => exact ih found
  | case6 => cases found

theorem insideOr_mem (e : TypedExpr) (found : isPlaceholderInsideOr id e = true) : id ∈ placeholdersIn e := by
  fun_induction isPlaceholderInsideOr id e with
  | case1 l r t n =>
    rw [or_eq_true] at found
    rw [placeholdersIn, mem_append]
    exact found.imp (hasPlaceholder_mem l) (hasPlaceholder_mem r)
  | case2 l r t n ihl ihr =>
    rw [or_eq_true] at found
    rw [placeholdersIn, mem_append]
    exact found.imp ihl ihr
  | case3 e t n ih => exact ih found
  | case4 => cases found

theorem insideOr_conjunct (e : TypedExpr) (conjunct : atConjunct id e = true) :
    isPlaceholderInsideOr id e = false := by
  fun_induction atConjunct id e with
  | case1 l r t n ihl ihr =>
    rw [or_eq_true, and_eq_true, and_eq_true] at conjunct
    rw [isPlaceholderInsideOr, Bool.or_eq_false_iff]
    obtain ⟨here,absent⟩ | ⟨absent,here⟩ := conjunct
    · refine ⟨ihl here,Bool.eq_false_iff.mpr fun inside => ?_⟩
      simp [insideOr_mem r inside] at absent
    · refine ⟨Bool.eq_false_iff.mpr fun inside => ?_,ihr here⟩
      simp [insideOr_mem l inside] at absent
  | case2 e t n ih => exact ih conjunct
  | case3 e _ _ =>
    obtain ⟨kind,t,n⟩ := e
    cases kind <;> simp_all [isPlaceholder, isPlaceholderInsideOr]

end

variable [CaseFolding]

section
variable (i : Interp) (env : Env) (id : Nat)

/-- The truth of a predicate without the operand that is the placeholder. -/
def restTruth : TypedExpr → Kleene
  | ⟨.binaryOp l .and r, _, _⟩ => (restTruth l).and (restTruth r)
  | ⟨.binaryOp l .or r, _, _⟩ =>
    if isPlaceholder id l then (if isPlaceholder id r then .no else restTruth r)
    else if isPlaceholder id r then restTruth l
    else (restTruth l).or (restTruth r)
  | ⟨.nested e, _, _⟩ => restTruth e
  | e => if isPlaceholder id e then .yes else truthOf i env e

variable {id}

theorem restTruth_placeholder (here : isPlaceholder id e = true) : restTruth i env id e = .yes := by
  obtain ⟨kind,t,n⟩ := e
  cases kind <;> simp_all [isPlaceholder, restTruth]

theorem truthOf_removed (e : TypedExpr) (other : isPlaceholder id e = false) :
    truthOf i env (removePlaceholderFromExpr id e) = restTruth i env id e := by
  fun_induction removePlaceholderFromExpr id e with
  | case1 l r t n both =>
    rw [and_eq_true] at both
    rw [restTruth, restTruth_placeholder i env both.1, restTruth_placeholder i env both.2]
    rfl
  | case2 l r t n notBoth left ih =>
    have right : isPlaceholder id r = false := by simpa [left] using notBoth
    rw [restTruth, restTruth_placeholder i env left, ih right]
    cases restTruth i env id r <;> rfl
  | case3 l r t n _ left right ih =>
    rw [restTruth, restTruth_placeholder i env right, ih (by simpa using left)]
    cases restTruth i env id l <;> rfl
  | case4 l r t n _ left right ihl ihr =>
    rw [truthOf_and, restTruth, ihl (by simpa using left), ihr (by simpa using right)]
  | case5 l r t n both =>
    rw [and_eq_true] at both
    rw [restTruth, if_pos both.1, if_pos both.2]
    rfl
  | case6 l r t n notBoth left ih =>
    have right : isPlaceholder id r = false := by simpa [left] using notBoth
    rw [restTruth, if_pos left, if_neg (by simp [right]), ih right]
  | case7 l r t n _ left right ih =>
    rw [restTruth, if_neg left, if_pos right, ih (by simpa using left)]
  | case8 l r t n _ left right ihl ihr =>
    rw [truthOf_or, restTruth, if_neg left, if_neg right, ihl (by simpa using left),
      ihr (by simpa using right)]
  | case9 e t n inside =>
    rw [restTruth, restTruth_placeholder i env inside]
    rfl
  | case10 e t n inside ih =>
    rw [truthOf_nested, restTruth, ih (by simpa using inside)]
  | case11 e notAnd notOr notNested =>
    unfold restTruth
    split
    · exact (notAnd _ _ _ _ rfl).elim
    · exact (notOr _ _ _ _ rfl).elim
    · exact (notNested _ _ _ rfl).elim
    · rw [if_neg (by simp [other])]

theorem filter_removed (e : TypedExpr) :
    ((removePlaceholderFromFilter id (some e)).all fun f => (truthOf i env f).holds) =
      (restTruth i env id e).holds := by
  rw [removePlaceholderFromFilter]
  by_cases here : isPlaceholder id e = true
  · rw [if_pos here, restTruth_placeholder i env here]
    rfl
  · rw [if_neg here, Option.all_some, truthOf_removed i env e (by simpa using here)]

theorem restTruth_absent (e : TypedExpr) (absent : id ∉ placeholdersIn e) :
    restTruth i env id e = truthOf i env e := by
  fun_induction restTruth i env id e with
  | case1 l r t n ihl ihr =>
    rw [placeholdersIn, mem_append, not_or] at absent
    rw [truthOf_and, ihl absent.1, ihr absent.2]
  | case2 _ _ _ _ left | case3 _ _ _ _ left =>
    rw [placeholdersIn, mem_append, not_or] at absent
    exact (absent.1 (isPlaceholder_mem left)).elim
  | case4 l r t n _ right _ =>
    rw [placeholdersIn, mem_append, not_or] at absent
    exact (absent.2 (isPlaceholder_mem right)).elim
  | case5 l r t n _ _ ihl ihr =>
    rw [placeholdersIn, mem_append, not_or] at absent
    rw [truthOf_or, ihl absent.1, ihr absent.2]
  | case6 e t n ih =>
    rw [truthOf_nested, ih absent]
  | case7 e _ _ _ here => exact (absent (isPlaceholder_mem here)).elim
  | case8 e _ _ _ _ => rfl

theorem holds_conjunct (e : TypedExpr) (conjunct : atConjunct id e = true) :
    (truthOf i env e).holds = ((env.sub id).truth.holds && (restTruth i env id e).holds) := by
  fun_induction atConjunct id e with
  | case1 l r t n ihl ihr =>
    rw [truthOf_and, Kleene.holds_and, restTruth, Kleene.holds_and]
    rw [or_eq_true, and_eq_true, and_eq_true] at conjunct
    obtain ⟨here,absent⟩ | ⟨absent,here⟩ := conjunct
    · rw [ihl here, restTruth_absent i env r (by simpa using absent), Bool.and_assoc]
    · rw [ihr here, restTruth_absent i env l (by simpa using absent), Bool.and_left_comm]
  | case2 e t n ih => rw [truthOf_nested, restTruth, ih conjunct]
  | case3 e notAnd notNested =>
    rw [restTruth_placeholder i env conjunct]
    obtain ⟨kind,t,n⟩ := e
    cases kind <;> simp_all [isPlaceholder, truthOf, eval]

variable {env} in
theorem restTruth_conjunct (e : TypedExpr) (conjunct : atConjunct id e = true)
    (col : env.col = env'.col) (sub : ∀ k, k ≠ id → env.sub k = env'.sub k) :
    restTruth i env id e = restTruth i env' id e := by
  have frame : ∀ f : TypedExpr, id ∉ placeholdersIn f → restTruth i env id f = restTruth i env' id f := by
    intro f absent
    rw [restTruth_absent i env f absent, restTruth_absent i env' f absent, truthOf, truthOf]
    refine congrArg _ (eval_agrees f (fun k member => sub k ?_) fun r _ => congrFun col r)
    intro same
    exact absent (same ▸ member)
  fun_induction atConjunct id e with
  | case1 l r t n ihl ihr =>
    rw [restTruth, restTruth]
    rw [or_eq_true, and_eq_true, and_eq_true] at conjunct
    obtain ⟨here,absent⟩ | ⟨absent,here⟩ := conjunct
    · rw [ihl here, frame r (by simpa using absent)]
    · rw [ihr here, frame l (by simpa using absent)]
  | case2 e t n ih =>
    exact ih conjunct
  | case3 e _ _ =>
    rw [restTruth_placeholder i env conjunct, restTruth_placeholder i env' conjunct]

end

/-- A SELECT without FROM gets one row to join against. -/
def takeFromOrSynthesizeSingleRow (source : Option Relation) : Relation :=
  source.getD (.plan (.generateSeries ⟨1, 1, 1, "__nr_subquery_join_dummy", none⟩))

def sqAlias (id : Nat) : String :=
  "__sq_" ++ toString id

/-- The rows of a FROM that pass a WHERE, given the value each subquery has
for a row. -/
def keptRows (w : World) (ctes : Nat → List Row) (o : Outer) (subs : Row → Nat → Value)
    (source : LogicalPlan) (filter : Option TypedExpr) : List Row :=
  (rows w ctes o source).filter fun row =>
    filter.all fun e =>
      (truthOf w.interp ⟨(envOf (scopeOf w.interp source) o row.look).col, subs row⟩ e).holds

def withSub (subs : Row → Nat → Value) (id : Nat) (value : Row → Value) (row : Row) (k : Nat) : Value :=
  if k = id then value row else subs row k

section
variable {id : Nat}

def restHolds (w : World) (o : Outer) (subs : Row → Nat → Value) (source : LogicalPlan) (id : Nat)
    (e : TypedExpr) (row : Row) : Bool :=
  (restTruth w.interp ⟨(envOf (scopeOf w.interp source) o row.look).col, subs row⟩ id e).holds

theorem keptRows_conjunct (source : LogicalPlan) (value : Row → Value) (e : TypedExpr)
    (conjunct : atConjunct id e = true) :
    keptRows w ctes o (withSub subs id value) source (some e) = (rows w ctes o source).filter fun row =>
        (value row).truth.holds && restHolds w o subs source id e row := by
  apply filter_congr
  intro row _
  rw [Option.all_some, holds_conjunct _ _ e conjunct]
  apply congrArg₂
  · simp [withSub]
  · refine congrArg Kleene.holds (restTruth_conjunct _ e conjunct rfl ?_)
    intro k other
    simp [withSub, other]

theorem keptRows_removed (keep : Row → Bool) (e : TypedExpr)
    (scope : scopeOf w.interp joined = scopeOf w.interp source)
    (kept : rows w ctes o joined = (rows w ctes o source).filter keep) :
    keptRows w ctes o subs joined (removePlaceholderFromFilter id (some e)) =
      (rows w ctes o source).filter fun row => keep row && restHolds w o subs source id e row := by
  rw [keptRows, kept, scope, filter_filter]
  apply filter_congr
  intro row _
  rw [filter_removed, restHolds, Bool.and_comm]

end
end NovaRocks
