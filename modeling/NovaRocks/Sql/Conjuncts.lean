import NovaRocks.Sql.Rows

/-!
Conjunctions. Splitting a predicate on AND and putting conjuncts back together
neither changes which rows are accepted nor which columns are read, so a rule
may place every conjunct on its own.
-/
namespace NovaRocks
open Relational List

/-- The flat list of conjuncts; parentheses stay closed. -/
def splitAnd : TypedExpr → List TypedExpr
  | ⟨.binaryOp l .and r, _, _⟩ => splitAnd l ++ splitAnd r
  | e => [e]

/-- Right-nested conjunction of a nonempty list, given as head and tail. -/
def combineAnd : TypedExpr → List TypedExpr → TypedExpr
  | e, [] => e
  | e, next :: rest =>
    let tail := combineAnd next rest
    ⟨.binaryOp e .and tail, .boolean, e.nullable || tail.nullable⟩

theorem joinConjuncts_splitAnd (e : TypedExpr) : joinConjuncts e = (splitAnd e).flatMap joinConjuncts := by
  fun_induction splitAnd e with
  | case1 l r _ _ ihl ihr => rw [joinConjuncts, ihl, ihr, flatMap_append]
  | case2 e _ => simp

theorem joinConjuncts_combineAnd (e : TypedExpr) (rest : List TypedExpr) :
    joinConjuncts (combineAnd e rest) = (e :: rest).flatMap joinConjuncts := by
  induction rest generalizing e with
  | nil => simp [combineAnd]
  | cons next rest ih =>
    rw [combineAnd, joinConjuncts, ih]
    rfl

variable [CaseFolding]

section
variable (i : Interp) (env : Env)

theorem truthOf_and (l r : TypedExpr) (t : DataType) (n : Bool) :
    truthOf i env ⟨.binaryOp l .and r, t, n⟩ = (truthOf i env l).and (truthOf i env r) := by
  simp [truthOf, eval, binary]

theorem truthOf_or (l r : TypedExpr) (t : DataType) (n : Bool) :
    truthOf i env ⟨.binaryOp l .or r, t, n⟩ = (truthOf i env l).or (truthOf i env r) := by
  simp [truthOf, eval, binary]

theorem truthOf_nested (e : TypedExpr) (t : DataType) (n : Bool) :
    truthOf i env ⟨.nested e, t, n⟩ = truthOf i env e := by
  simp [truthOf, eval]

theorem holds_splitAnd (e : TypedExpr) :
    (truthOf i env e).holds = (splitAnd e).all fun c => (truthOf i env c).holds := by
  fun_induction splitAnd e with
  | case1 l r t n left right =>
    rw [truthOf_and, Kleene.holds_and, left, right, all_append]
  | case2 e _ => simp

theorem holds_joinConjuncts (e : TypedExpr) :
    (truthOf i env e).holds = (joinConjuncts e).all fun c => (truthOf i env c).holds := by
  fun_induction joinConjuncts e with
  | case1 l r t n left right =>
    rw [truthOf_and, Kleene.holds_and, left, right, all_append]
  | case2 e t n inner => rw [truthOf_nested, inner]
  | case3 e _ _ => simp

theorem holds_combineAnd (e : TypedExpr) (rest : List TypedExpr) :
    (truthOf i env (combineAnd e rest)).holds = (e :: rest).all fun c => (truthOf i env c).holds := by
  induction rest generalizing e with
  | nil => simp [combineAnd]
  | cons next rest ih =>
    rw [combineAnd, truthOf_and, Kleene.holds_and, ih]
    rfl

end

section
variable (label : Option (ExprKind → String))

theorem refsWith_splitAnd (e : TypedExpr) : refsWith label e = (splitAnd e).flatMap (refsWith label) := by
  fun_induction splitAnd e with
  | case1 l r t n left right => rw [refsWith, left, right, flatMap_append]
  | case2 e _ => simp

theorem refsWith_combineAnd (e : TypedExpr) (rest : List TypedExpr) :
    refsWith label (combineAnd e rest) = (e :: rest).flatMap (refsWith label) := by
  induction rest generalizing e with
  | nil => simp [combineAnd]
  | cons next rest ih =>
    rw [combineAnd, refsWith, ih]
    rfl

theorem refsWith_joinConjuncts (e : TypedExpr) :
    refsWith label e = (joinConjuncts e).flatMap (refsWith label) := by
  fun_induction joinConjuncts e with
  | case1 l r t n left right => rw [refsWith, left, right, flatMap_append]
  | case2 e t n inner => rw [refsWith, inner]
  | case3 e _ _ => simp

end

theorem mem_reads_iff : r ∈ reads i p ↔ ∃ c ∈ splitAnd p, r ∈ reads i c := by
  rw [reads, refsWith_splitAnd, mem_flatMap]
  rfl

section
variable (i : Interp) (s : Scope) (o : Outer) (row : Row)

theorem accepts_combineAnd (e : TypedExpr) (rest : List TypedExpr) :
    accepts i s o (combineAnd e rest) row = (e :: rest).all fun c => accepts i s o c row :=
  holds_combineAnd i _ e rest

end

end NovaRocks
