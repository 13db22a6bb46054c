import Mathlib.Data.List.Basic

/-!
Three-valued logic for query predicates. A filter and a join condition keep a
row only on `yes`; `unknown` is what a comparison with NULL yields. The laws
below are the ones that let a conjunction be split over several operators and
a common factor be taken out of a disjunction.
-/
namespace Relational

inductive Kleene where
  | no
  | unknown
  | yes
  deriving DecidableEq, Repr

namespace Kleene

def not : Kleene → Kleene
  | no => yes
  | unknown => unknown
  | yes => no

def and : Kleene → Kleene → Kleene
  | no, _ => no
  | _, no => no
  | yes, yes => yes
  | _, _ => unknown

def or : Kleene → Kleene → Kleene
  | yes, _ => yes
  | _, yes => yes
  | no, no => no
  | _, _ => unknown

def ofBool (b : Bool) : Kleene :=
  if b then yes else no

/-- What a WHERE or ON clause asks of its predicate. -/
def holds (k : Kleene) : Bool :=
  k == yes

@[simp] theorem holds_iff (k : Kleene) : k.holds = true ↔ k = yes := by
  cases k <;> decide

@[simp] theorem ofBool_eq_yes (b : Bool) : ofBool b = yes ↔ b = true := by
  cases b <;> decide

@[simp] theorem ofBool_eq_no (b : Bool) : ofBool b = no ↔ b = false := by
  cases b <;> decide

@[simp] theorem or_eq_yes (a b : Kleene) : a.or b = yes ↔ a = yes ∨ b = yes := by
  cases a <;> cases b <;> decide

@[simp] theorem not_eq_yes (a : Kleene) : a.not = yes ↔ a = no := by
  cases a <;> decide

theorem holds_and (a b : Kleene) : (a.and b).holds = (a.holds && b.holds) := by
  cases a <;> cases b <;> rfl

theorem holds_or (a b : Kleene) : (a.or b).holds = (a.holds || b.holds) := by
  cases a <;> cases b <;> rfl

end Kleene
end Relational
