import NovaRocks.Sql.Expr
import Mathlib.Algebra.Order.Ring.Int
import Mathlib.Data.List.Dedup

/-!
The value of an expression on one row. NULL is strict in comparisons, the
logical operators are Kleene's, and every other operator is an arbitrary
function of its operands: nothing proved about the optimizer depends on what
`+` or a scalar function computes.
-/
namespace NovaRocks
open Relational List
open Kleene (no ofBool unknown yes)

inductive Value where
  | null
  | bool (b : Bool)
  | int (i : Int)
  | text (s : String)
  deriving DecidableEq

namespace Value

def truth : Value → Kleene
  | bool b => ofBool b
  | _ => unknown

def ofKleene : Kleene → Value
  | .yes => bool true
  | .no => bool false
  | .unknown => null

@[simp] theorem truth_ofKleene (k : Kleene) : (ofKleene k).truth = k := by
  cases k <;> rfl

/-- SQL equality: unknown as soon as one operand is NULL. -/
def equals : Value → Value → Kleene
  | null, _ => unknown
  | _, null => unknown
  | a, b => ofBool (a = b)

theorem equals_comm (a b : Value) : a.equals b = b.equals a := by
  cases a <;> cases b <;> simp [equals, eq_comm]

theorem equals_eq_yes (a b : Value) : a.equals b = yes ↔ a ≠ null ∧ a = b := by
  cases a <;> cases b <;> simp [equals]

end Value

/-- The engine's operators beyond comparison and logic, and the display name
under which an operator publishes the result of a call. -/
structure Interp where
  arith : BinOp → Value → Value → Value
  unary : UnOp → Value → Value
  less : Value → Value → Bool
  number : LiteralValue → Value
  cast : DataType → Value → Value
  like : Value → Value → Kleene
  call : String → Bool → List Value → Value
  label : ExprKind → String
  /-- name, DISTINCT, and for each row of the group the operands and sort keys -/
  aggregate : String → Bool → List (List Value × List Value) → Value
  /-- name, DISTINCT, frame, per row operands, partition and sort keys; row asked for -/
  window : String → Bool → Option WindowFrame →
    List (List Value × List Value × List Value) → Nat → Value

variable [CaseFolding]

/-- What an expression may read: the columns in scope and, before subqueries
are rewritten, the value each subquery has for the row at hand. -/
structure Env where
  col : QualifiedRef → Value
  sub : Nat → Value

def comparison (i : Interp) (op : BinOp) (a b : Value) : Kleene :=
  match op with
  | .eqForNull => ofBool (a = b)
  | .eq => a.equals b
  | .ne => (a.equals b).not
  | _ =>
    if a = .null ∨ b = .null then unknown
    else match op with
      | .lt => ofBool (i.less a b)
      | .le => ofBool (!i.less b a)
      | .gt => ofBool (i.less b a)
      | _ => ofBool (!i.less a b)

def binary (i : Interp) (op : BinOp) (a b : Value) : Value :=
  match op with
  | .and => Value.ofKleene (a.truth.and b.truth)
  | .or => Value.ofKleene (a.truth.or b.truth)
  | .add | .sub | .mul | .div | .mod => i.arith op a b
  | _ => Value.ofKleene (comparison i op a b)

def negateIf (negated : Bool) (k : Kleene) : Kleene :=
  if negated then k.not else k

def literalValue (i : Interp) : LiteralValue → Value
  | .null => .null
  | .bool b => .bool b
  | .int n => .int n
  | .string s => .text s
  | l => i.number l

/-- `IN` over listed values: a disjunction of equalities. -/
def inValues (v : Value) : List Value → Kleene
  | [] => no
  | w :: rest => (v.equals w).or (inValues v rest)

/-- A WHEN branch fires on a true condition, or on equality with the operand. -/
def branchFires (operand : Option Value) (cond : Value) : Bool :=
  match operand with
  | none => cond.truth.holds
  | some v => (v.equals cond).holds

mutual
def eval (i : Interp) (env : Env) : TypedExpr → Value
  | ⟨.columnRef q c, _, _⟩ => env.col (foldRef q c)
  | ⟨.literal l, _, _⟩ => literalValue i l
  | ⟨.binaryOp l op r, _, _⟩ => binary i op (eval i env l) (eval i env r)
  | ⟨.unaryOp .not e, _, _⟩ => Value.ofKleene (eval i env e).truth.not
  | ⟨.unaryOp op e, _, _⟩ => i.unary op (eval i env e)
  | ⟨.functionCall name args distinct, _, _⟩ => i.call name distinct (evalList i env args)
  | ⟨.aggregateCall name args distinct orderBy, _, _⟩ =>
    env.col (none, lower (i.label (.aggregateCall name args distinct orderBy)))
  | ⟨.cast e target, _, _⟩ => i.cast target (eval i env e)
  | ⟨.isNull e negated, _, _⟩ => .bool ((eval i env e == .null) != negated)
  | ⟨.inList e list negated, _, _⟩ =>
    Value.ofKleene (negateIf negated (inValues (eval i env e) (evalList i env list)))
  | ⟨.between e low high negated, _, _⟩ =>
    Value.ofKleene (negateIf negated
      ((comparison i .ge (eval i env e) (eval i env low)).and
        (comparison i .le (eval i env e) (eval i env high))))
  | ⟨.like e pattern negated, _, _⟩ =>
    Value.ofKleene (negateIf negated (i.like (eval i env e) (eval i env pattern)))
  | ⟨.case operand whenThen elseExpr, _, _⟩ =>
    (evalBranches i env (evalOption i env operand) whenThen).getD
      ((evalOption i env elseExpr).getD .null)
  | ⟨.isTruthValue e value negated, _, _⟩ =>
    .bool (((eval i env e).truth == ofBool value) != negated)
  | ⟨.nested e, _, _⟩ => eval i env e
  | ⟨.windowCall name args distinct partitionBy orderBy frame, _, _⟩ =>
    env.col (none, lower (i.label (.windowCall name args distinct partitionBy orderBy frame)))
  | ⟨.subqueryPlaceholder id _ _, _, _⟩ => env.sub id
def evalList (i : Interp) (env : Env) : List TypedExpr → List Value
  | [] => []
  | e :: rest => eval i env e :: evalList i env rest
def evalOption (i : Interp) (env : Env) : Option TypedExpr → Option Value
  | none => none
  | some e => some (eval i env e)
def evalBranches (i : Interp) (env : Env) (operand : Option Value) :
    List (TypedExpr × TypedExpr) → Option Value
  | [] => none
  | (w, t) :: rest =>
    if branchFires operand (eval i env w) then some (eval i env t)
    else evalBranches i env operand rest
end

def truthOf (i : Interp) (env : Env) (e : TypedExpr) : Kleene :=
  (eval i env e).truth

/-- The columns evaluation looks up: calls count as the column they name. -/
def reads (i : Interp) (e : TypedExpr) : List QualifiedRef :=
  refsWith (some i.label) e

mutual
/-- Evaluation looks up the columns read and the subqueries taken, no more. -/
theorem eval_agrees : ∀ e : TypedExpr, (∀ k ∈ placeholdersIn e, env.sub k = env'.sub k) →
    (∀ r ∈ reads i e, env.col r = env'.col r) → eval i env e = eval i env' e
  | ⟨.columnRef q c,_,_⟩, _, same => by simpa [eval] using same _ (by simp [reads, refsWith])
  | ⟨.literal l,_,_⟩, _, _ => rfl
  | ⟨.binaryOp l op r,_,_⟩, sub, same => by
    simp only [reads, refsWith, placeholdersIn, mem_append] at same sub
    rw [eval, eval, eval_agrees l (fun k hk => sub k (.inl hk)) fun x hx => same x (.inl hx),
      eval_agrees r (fun k hk => sub k (.inr hk)) fun x hx => same x (.inr hx)]
  | ⟨.unaryOp op e,_,_⟩, sub, same => by
    have inner := eval_agrees e sub same
    cases op <;> simp only [eval, inner]
  | ⟨.functionCall _ args _,_,_⟩, sub, same => by
    rw [eval, eval, evalList_agrees args sub same]
  | ⟨.aggregateCall _ _ _ _,_,_⟩, _, same => by
    simpa [eval] using same _ (by simp [reads, refsWith])
  | ⟨.cast e _,_,_⟩, sub, same => by rw [eval, eval, eval_agrees e sub same]
  | ⟨.isNull e _,_,_⟩, sub, same => by rw [eval, eval, eval_agrees e sub same]
  | ⟨.inList e list _,_,_⟩, sub, same => by
    simp only [reads, refsWith, placeholdersIn, mem_append] at same sub
    rw [eval, eval, eval_agrees e (fun k hk => sub k (.inl hk)) fun x hx => same x (.inl hx),
      evalList_agrees list (fun k hk => sub k (.inr hk)) fun x hx => same x (.inr hx)]
  | ⟨.between e low high _,_,_⟩, sub, same => by
    simp only [reads, refsWith, placeholdersIn, mem_append] at same sub
    rw [eval, eval, eval_agrees e (fun k hk => sub k (.inl (.inl hk))) fun x hx => same x (.inl (.inl hx)),
      eval_agrees low (fun k hk => sub k (.inl (.inr hk))) fun x hx => same x (.inl (.inr hx)),
      eval_agrees high (fun k hk => sub k (.inr hk)) fun x hx => same x (.inr hx)]
  | ⟨.like e pattern _,_,_⟩, sub, same => by
    simp only [reads, refsWith, placeholdersIn, mem_append] at same sub
    rw [eval, eval, eval_agrees e (fun k hk => sub k (.inl hk)) fun x hx => same x (.inl hx),
      eval_agrees pattern (fun k hk => sub k (.inr hk)) fun x hx => same x (.inr hx)]
  | ⟨.case operand whenThen elseExpr,_,_⟩, sub, same => by
    simp only [reads, refsWith, placeholdersIn, mem_append] at same sub
    rw [eval, eval, evalOption_agrees operand (fun k hk => sub k (.inl (.inl hk)))
        fun x hx => same x (.inl (.inl hx)),
      evalBranches_agrees _ whenThen (fun k hk => sub k (.inl (.inr hk)))
        fun x hx => same x (.inl (.inr hx)),
      evalOption_agrees elseExpr (fun k hk => sub k (.inr hk)) fun x hx => same x (.inr hx)]
  | ⟨.isTruthValue e _ _,_,_⟩, sub, same => by rw [eval, eval, eval_agrees e sub same]
  | ⟨.nested e,_,_⟩, sub, same => by rw [eval, eval, eval_agrees e sub same]
  | ⟨.windowCall _ _ _ _ _ _,_,_⟩, _, same => by
    simpa [eval] using same _ (by simp [reads, refsWith])
  | ⟨.subqueryPlaceholder _ _ _,_,_⟩, sub, _ => by
    simpa [eval] using sub _ (by simp [placeholdersIn])
theorem evalList_agrees : ∀ es : List TypedExpr,
    (∀ k ∈ placeholdersInList es, env.sub k = env'.sub k) →
    (∀ r ∈ refsWithList (some i.label) es, env.col r = env'.col r) → evalList i env es = evalList i env' es
  | [], _, _ => rfl
  | e :: rest, sub, same => by
    simp only [refsWithList, placeholdersInList, mem_append] at same sub
    rw [evalList, evalList, eval_agrees e (fun k hk => sub k (.inl hk)) fun x hx => same x (.inl hx),
      evalList_agrees rest (fun k hk => sub k (.inr hk)) fun x hx => same x (.inr hx)]
theorem evalOption_agrees : ∀ e : Option TypedExpr,
    (∀ k ∈ placeholdersInOption e, env.sub k = env'.sub k) →
    (∀ r ∈ refsWithOption (some i.label) e, env.col r = env'.col r) →
      evalOption i env e = evalOption i env' e
  | none, _, _ => rfl
  | some e, sub, same => by rw [evalOption, evalOption, eval_agrees e sub same]
theorem evalBranches_agrees (operand : Option Value) : ∀ bs : List (TypedExpr × TypedExpr),
    (∀ k ∈ placeholdersInBranches bs, env.sub k = env'.sub k) →
    (∀ r ∈ refsWithBranches (some i.label) bs, env.col r = env'.col r) →
      evalBranches i env operand bs = evalBranches i env' operand bs
  | [], _, _ => rfl
  | (w, t) :: rest, sub, same => by
    simp only [refsWithBranches, placeholdersInBranches, mem_append] at same sub
    rw [evalBranches, evalBranches,
      eval_agrees w (fun k hk => sub k (.inl (.inl hk))) fun x hx => same x (.inl (.inl hx)),
      eval_agrees t (fun k hk => sub k (.inl (.inr hk))) fun x hx => same x (.inl (.inr hx)),
      evalBranches_agrees operand rest (fun k hk => sub k (.inr hk)) fun x hx => same x (.inr hx)]
end

theorem eval_congr (sub : env.sub = env'.sub) (e : TypedExpr)
    (same : ∀ r ∈ reads i e, env.col r = env'.col r) : eval i env e = eval i env' e :=
  eval_agrees e (fun k _ => congrFun sub k) same

theorem truthOf_congr (sub : env.sub = env'.sub)
    (same : ∀ r ∈ reads i e, env.col r = env'.col r) : truthOf i env e = truthOf i env' e := by
  rw [truthOf, truthOf, eval_congr sub e same]

/-- Names in ASCII letters. -/
instance : CaseFolding where
  lower name := String.ofList (name.toList.map Char.toLower)

/-- Operators on integers only; enough to run plans on small tables. -/
def intInterp : Interp where
  arith
    | .add, .int a, .int b => .int (a + b)
    | .sub, .int a, .int b => .int (a - b)
    | .mul, .int a, .int b => .int (a * b)
    | _, _, _ => .null
  unary
    | .negate, .int a => .int (-a)
    | _, _ => .null
  less
    | .int a, .int b => a < b
    | _, _ => false
  number _ := .null
  cast _ v := v
  like _ _ := .unknown
  call _ _ _ := .null
  label
    | .aggregateCall name _ _ _ => name
    | .windowCall name _ _ _ _ _ => name
    | _ => "expr"
  aggregate name distinct members :=
    let operands := (members.filterMap fun m => m.1.head?).filter (· ≠ .null)
    let kept := if distinct then operands.dedup else operands
    match name with
    | "count" => .int kept.length
    | "sum" =>
      if kept.isEmpty then .null
      else .int (kept.map fun v => match v with | .int n => n | _ => 0).sum
    | _ => .null
  window _ _ _ _ _ := .null

end NovaRocks
