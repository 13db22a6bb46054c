import NovaRocks.Sql.Expr

/-!
Structural comparison of expressions. The optimizer compares the debug text of
two expression kinds, which spells out every constructor and field below the
root, types included; only the type of the root itself is left out.
-/
namespace NovaRocks

mutual
def sameExpr : TypedExpr → TypedExpr → Bool
  | ⟨k, t, n⟩, ⟨k', t', n'⟩ => sameKind k k' && t == t' && n == n'
def sameKind : ExprKind → ExprKind → Bool
  | .columnRef q c, .columnRef q' c' => q == q' && c == c'
  | .literal l, .literal l' => l == l'
  | .binaryOp l op r, .binaryOp l' op' r' => sameExpr l l' && op == op' && sameExpr r r'
  | .unaryOp op e, .unaryOp op' e' => op == op' && sameExpr e e'
  | .functionCall f as d, .functionCall f' as' d' => f == f' && sameList as as' && d == d'
  | .aggregateCall f as d os, .aggregateCall f' as' d' os' =>
    f == f' && sameList as as' && d == d' && sameSort os os'
  | .cast e t, .cast e' t' => sameExpr e e' && t == t'
  | .isNull e n, .isNull e' n' => sameExpr e e' && n == n'
  | .inList e es n, .inList e' es' n' => sameExpr e e' && sameList es es' && n == n'
  | .between e l h n, .between e' l' h' n' =>
    sameExpr e e' && sameExpr l l' && sameExpr h h' && n == n'
  | .like e p n, .like e' p' n' => sameExpr e e' && sameExpr p p' && n == n'
  | .case o bs e, .case o' bs' e' => sameOption o o' && sameBranches bs bs' && sameOption e e'
  | .isTruthValue e v n, .isTruthValue e' v' n' => sameExpr e e' && v == v' && n == n'
  | .nested e, .nested e' => sameExpr e e'
  | .windowCall f as d ps os w, .windowCall f' as' d' ps' os' w' =>
    f == f' && sameList as as' && d == d' && sameList ps ps' && sameSort os os' && w == w'
  | .subqueryPlaceholder i k t, .subqueryPlaceholder i' k' t' => i == i' && k == k' && t == t'
  | _, _ => false
def sameList : List TypedExpr → List TypedExpr → Bool
  | [], [] => true
  | e :: es, e' :: es' => sameExpr e e' && sameList es es'
  | _, _ => false
def sameSort : List SortItem → List SortItem → Bool
  | [], [] => true
  | ⟨e, a, n⟩ :: es, ⟨e', a', n'⟩ :: es' =>
    sameExpr e e' && a == a' && n == n' && sameSort es es'
  | _, _ => false
def sameOption : Option TypedExpr → Option TypedExpr → Bool
  | none, none => true
  | some e, some e' => sameExpr e e'
  | _, _ => false
def sameBranches : List (TypedExpr × TypedExpr) → List (TypedExpr × TypedExpr) → Bool
  | [], [] => true
  | (w, t) :: es, (w', t') :: es' => sameExpr w w' && sameExpr t t' && sameBranches es es'
  | _, _ => false
end

/-- `expr_eq`: the two kinds print the same. -/
def exprEq (a b : TypedExpr) : Bool :=
  sameKind a.kind b.kind

theorem same_eq : (∀ a b, sameExpr a b = true → a = b) ∧ (∀ a b, sameKind a b = true → a = b) ∧
    (∀ as bs, sameBranches as bs = true → as = bs) ∧ (∀ a b, sameOption a b = true → a = b) ∧
    (∀ as bs, sameSort as bs = true → as = bs) ∧ ∀ as bs, sameList as bs = true → as = bs := by
  apply sameExpr.mutual_induct <;> intros <;>
    simp_all [sameExpr, sameKind, sameBranches, sameOption, sameSort, sameList]

theorem exprEq_kind (same : exprEq a b = true) : a.kind = b.kind :=
  same_eq.2.1 _ _ same

variable [CaseFolding]

/-- The two columns of a `col = col` predicate. -/
def columnEq (e : TypedExpr) : Option (QualifiedRef × QualifiedRef) :=
  match e.kind with
  | .binaryOp ⟨.columnRef q c, _, _⟩ .eq ⟨.columnRef q' c', _, _⟩ =>
    some (foldRef q c, foldRef q' c')
  | _ => none

theorem columnEq_kind (eq : columnEq e = some (a, b)) :
    ∃ q c t n q' c' t' n', e.kind = .binaryOp ⟨.columnRef q c, t, n⟩ .eq ⟨.columnRef q' c', t', n'⟩ ∧
      a = foldRef q c ∧ b = foldRef q' c' := by
  unfold columnEq at eq
  split at eq
  · rename_i q c t n q' c' t' n' kind
    simp only [Option.some.injEq, Prod.mk.injEq] at eq
    exact ⟨q,c,t,n,q',c',t',n',kind,eq.1.symm,eq.2.symm⟩
  · simp at eq

end NovaRocks
