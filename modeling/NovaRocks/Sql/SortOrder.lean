import NovaRocks.Sql.Rows
import NovaRocks.Relational.TopN
import Mathlib.Data.String.Basic

/-!
The order of ORDER BY. Rows compare by their keys one item after the other, each
ascending or descending and with NULL at the end the item names. Over an engine
whose comparison is a strict total order this is a total preorder of rows.
-/
namespace NovaRocks
open Relational List

/-- The engine's comparison of two values of a column. -/
structure Interp.Ordered (i : Interp) : Prop where
  irrefl : ∀ a, i.less a a = false
  trans : ∀ a b c, i.less a b → i.less b c → i.less a c
  total : ∀ a b, a ≠ b → a ≠ .null → b ≠ .null → i.less a b ∨ i.less b a

def SortItem.before (i : Interp) (item : SortItem) (a b : Value) : Bool :=
  if a = .null then item.nullsFirst
  else if b = .null then !item.nullsFirst
  else if item.asc then i.less a b else i.less b a

theorem keysBefore_cons (i : Interp) (item : SortItem) (items : List SortItem) (a b : Value)
    (as bs : List Value) :
    keysBefore i (item :: items) (a :: as) (b :: bs) =
      if a = b then keysBefore i items as bs else item.before i a b :=
  rfl

section
variable {i : Interp} (ordered : i.Ordered) (item : SortItem)
include ordered

theorem Interp.Ordered.asymm (first : i.less a b) : i.less b a = false := by
  by_contra back
  have self := ordered.trans a b a first (by simpa using back)
  rw [ordered.irrefl] at self
  cases self

theorem SortItem.before_total (different : a ≠ b) : item.before i a b ∨ item.before i b a := by
  unfold SortItem.before
  by_cases aNull : a = .null
  · have bSome : b ≠ .null := fun bNull => different (by rw [aNull, bNull])
    cases nulls : item.nullsFirst <;> simp [aNull, bSome]
  · by_cases bNull : b = .null
    · cases nulls : item.nullsFirst <;> simp [aNull, bNull]
    · have either := ordered.total a b different aNull bNull
      cases direction : item.asc
      · simpa [aNull, bNull] using either.symm
      · simpa [aNull, bNull] using either

theorem SortItem.before_asymm (different : a ≠ b) (first : item.before i a b) :
    item.before i b a = false := by
  unfold SortItem.before at first ⊢
  by_cases aNull : a = .null
  · have bSome : b ≠ .null := fun bNull => different (by rw [aNull, bNull])
    simp [aNull] at first
    simp [aNull, bSome, first]
  · by_cases bNull : b = .null
    · simp [aNull, bNull] at first
      simp [bNull, first]
    · cases direction : item.asc
      · simp [aNull, bNull, direction] at first
        simp [aNull, bNull, ordered.asymm first]
      · simp [aNull, bNull, direction] at first
        simp [aNull, bNull, ordered.asymm first]

theorem SortItem.before_trans (bc : b ≠ c) (first : item.before i a b)
    (second : item.before i b c) : a ≠ c ∧ item.before i a c := by
  have distinct : a ≠ c := by
    intro same
    rw [same] at first
    have back := item.before_asymm ordered bc second
    cases first.symm.trans back
  refine ⟨distinct,?_⟩
  unfold SortItem.before at *
  by_cases aNull : a = .null
  · simpa [aNull] using first
  · by_cases bNull : b = .null
    · -- NULL cannot both follow and precede other keys
      simp [aNull, bNull] at first
      simp [bNull, first] at second
    · by_cases cNull : c = .null
      · simpa [aNull, bNull, cNull] using second
      · cases direction : item.asc
        · simp [aNull, bNull, cNull, direction] at first second ⊢
          exact ordered.trans c b a second first
        · simp [aNull, bNull, cNull, direction] at first second ⊢
          exact ordered.trans a b c first second

end

theorem lexStep_trans {κ : Type} [DecidableEq κ] {before : κ → κ → Bool} {a b c : κ} {x y z : Bool}
    (trans : b ≠ c → before a b → before b c → a ≠ c ∧ before a c) (rest : x → y → z)
    (first : (if a = b then x else before a b) = true) (second : (if b = c then y else before b c) = true) :
    (if a = c then z else before a c) = true := by
  by_cases ab : a = b
  · by_cases bc : b = c
    · rw [if_pos ab] at first
      rw [if_pos bc] at second
      rw [if_pos (ab.trans bc)]
      exact rest first second
    · rw [if_neg bc] at second
      rwa [ab, if_neg bc]
  · rw [if_neg ab] at first
    by_cases bc : b = c
    · rwa [← bc, if_neg ab]
    · rw [if_neg bc] at second
      obtain ⟨ac,third⟩ := trans bc first second
      rwa [if_neg ac]

section
variable {i : Interp} (ordered : i.Ordered)
include ordered

theorem keysBefore_total (items : List SortItem) (as bs : List Value) :
    keysBefore i items as bs ∨ keysBefore i items bs as := by
  induction items generalizing as bs with
  | nil => exact .inl rfl
  | cons item items ih =>
    match as, bs with
    | [], _ => exact .inl rfl
    | _ :: _, [] => exact .inl rfl
    | a :: as, b :: bs =>
      rw [keysBefore_cons, keysBefore_cons]
      by_cases same : a = b
      · rw [if_pos same, if_pos same.symm]
        exact ih as bs
      · rw [if_neg same, if_neg (Ne.symm same)]
        exact item.before_total ordered same

theorem keysBefore_trans (lengthA : as.length = items.length) (lengthB : bs.length = items.length)
    (lengthC : cs.length = items.length) (first : keysBefore i items as bs)
    (second : keysBefore i items bs cs) : keysBefore i items as cs := by
  induction items generalizing as bs cs with
  | nil => rfl
  | cons item items ih =>
    match as, bs, cs with
    | a :: as, b :: bs, c :: cs =>
      rw [keysBefore_cons] at first second ⊢
      simp only [length_cons, Nat.add_right_cancel_iff] at lengthA lengthB lengthC
      exact lexStep_trans (item.before_trans ordered) (ih lengthA lengthB lengthC) first second

theorem keysBefore_antisymm (lengthA : as.length = items.length) (lengthB : bs.length = items.length)
    (first : keysBefore i items as bs) (second : keysBefore i items bs as) : as = bs := by
  induction items generalizing as bs with
  | nil => rw [length_eq_zero_iff.mp lengthA, length_eq_zero_iff.mp lengthB]
  | cons item items ih =>
    match as, bs with
    | a :: as, b :: bs =>
      rw [keysBefore_cons] at first second
      simp only [length_cons, Nat.add_right_cancel_iff] at lengthA lengthB
      by_cases same : a = b
      · rw [if_pos same] at first
        rw [if_pos same.symm] at second
        rw [same, ih lengthA lengthB first second]
      · rw [if_neg same] at first
        rw [if_neg (Ne.symm same), item.before_asymm ordered same first] at second
        cases second

end

def limitRows (limit : Option Nat) (offset : Nat) (input : List Row) : List Row :=
  match limit with
  | none => input.drop offset
  | some n => (input.drop offset).take n

section
variable (i : Interp) (env : Row → Env) (items : List SortItem)

def sortKeys (row : Row) : List Value :=
  evalList i (env row) (items.map SortItem.expr)

def rowBefore (a b : Row) : Prop :=
  keysBefore i items (sortKeys i env items a) (sortKeys i env items b) = true

instance : DecidableRel (rowBefore i env items) :=
  fun _ _ => inferInstanceAs (Decidable (_ = true))

end

section
variable {i : Interp} (ordered : i.Ordered) (env : Row → Env) (items : List SortItem)

theorem evalList_length (e : Env) (exprs : List TypedExpr) : (evalList i e exprs).length = exprs.length := by
  induction exprs with
  | nil => rfl
  | cons x rest ih =>
    rw [evalList, length_cons, ih, length_cons]

theorem sortKeys_length (row : Row) : (sortKeys i env items row).length = items.length := by
  rw [sortKeys, evalList_length, length_map]

include ordered

theorem rowBefore_total (a b : Row) : rowBefore i env items a b ∨ rowBefore i env items b a :=
  keysBefore_total ordered items _ _

theorem rowBefore_trans (a b c : Row) (first : rowBefore i env items a b)
    (second : rowBefore i env items b c) : rowBefore i env items a c :=
  keysBefore_trans ordered (sortKeys_length env items a) (sortKeys_length env items b)
    (sortKeys_length env items c) first second

theorem sortRows_sorts (input : List Row) :
    Sorts (rowBefore i env items) input (sortRows i env items input) := by
  have : Std.Total (rowBefore i env items) := ⟨rowBefore_total ordered env items⟩
  have : IsTrans Row (rowBefore i env items) := ⟨rowBefore_trans ordered env items⟩
  exact ⟨perm_insertionSort _ _,pairwise_insertionSort (rowBefore i env items) input⟩

end

/-! The order in which stored rows are kept: ascending, NULL first. -/

/-- Values of one kind in their order; NULL, truth values, numbers and text apart. -/
def Value.less : Value → Value → Bool
  | .null, .null => false
  | .null, _ => true
  | _, .null => false
  | .bool a, .bool b => !a && b
  | .bool _, _ => true
  | _, .bool _ => false
  | .int a, .int b => a < b
  | .int _, _ => true
  | _, .int _ => false
  | .text a, .text b => a < b

theorem Value.less_irrefl (a : Value) : a.less a = false := by
  cases a <;> simp [Value.less]

theorem Value.less_trans (a b c : Value) : a.less b → b.less c → a.less c := by
  cases a <;> cases b <;> cases c <;> simp only [Value.less, decide_eq_true_eq] <;>
    first | exact lt_trans | decide +revert | simp

theorem Value.less_total {a b : Value} : a ≠ b → a.less b ∨ b.less a := by
  cases a <;> cases b <;> simp only [Value.less, decide_eq_true_eq, ne_eq,
    Value.text.injEq] <;> first | exact lt_or_gt_of_ne | decide +revert | simp

def lexLe : List Value → List Value → Bool
  | [], _ => true
  | _ :: _, [] => false
  | a :: as, b :: bs => if a = b then lexLe as bs else a.less b

theorem lexLe_total (as bs : List Value) : lexLe as bs ∨ lexLe bs as := by
  induction as generalizing bs with
  | nil => exact .inl rfl
  | cons a as ih =>
    cases bs with
    | nil => exact .inr rfl
    | cons b bs =>
      by_cases same : a = b
      · simpa [lexLe, same] using ih bs
      · simpa [lexLe, same, Ne.symm same] using Value.less_total same

theorem lexLe_trans (as bs cs : List Value) (first : lexLe as bs) (second : lexLe bs cs) : lexLe as cs := by
  induction as generalizing bs cs with
  | nil => rfl
  | cons a as ih =>
    match bs, cs with
    | b :: bs, c :: cs =>
      refine lexStep_trans (fun _ ab bc => ?_) (ih bs cs) first second
      have third := Value.less_trans a b c ab bc
      refine ⟨?_,third⟩
      rintro rfl
      rw [Value.less_irrefl] at third
      cases third

end NovaRocks
