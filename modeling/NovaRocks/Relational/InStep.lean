import NovaRocks.Relational.Join
import Mathlib.Data.List.Perm.Basic
import Mathlib.Data.List.Sort

/-!
Two runs of the same operator over inputs that correspond row by row. Where
every choice the operator makes, which rows to keep, which pairs match, which
key comes first, is the same for corresponding rows, the outputs correspond
row by row as well.
-/
namespace Relational
open List

variable {α β γ α' β' γ' : Type}

section
variable {R : α → β → Prop} {xs : List α} {ys : List β}

theorem inStep_filter (same : ∀ a b, R a b → p a = q b)
    (step : Forall₂ R xs ys) : Forall₂ R (xs.filter p) (ys.filter q) := by
  apply rel_filter _ step
  intro a b head
  exact Bool.eq_iff_iff.mp (same a b head)

theorem inStep_any (same : ∀ a b, R a b → p a = q b) (step : Forall₂ R xs ys) : xs.any p = ys.any q := by
  induction step with
  | nil => rfl
  | cons head _ ih => rw [any_cons, any_cons, same _ _ head, ih]

theorem inStep_map_eq {f : α → γ} (same : ∀ a b, R a b → f a = g b)
    (step : Forall₂ R xs ys) : xs.map f = ys.map g := by
  induction step with
  | nil => rfl
  | cons head _ ih => rw [map_cons, map_cons, same _ _ head, ih]

section
variable {le : α → α → Prop} {le' : β → β → Prop} [DecidableRel le] [DecidableRel le']

theorem inStep_orderedInsert (same : ∀ a b c d, R a b → R c d → (le a c ↔ le' b d)) (new : R a b)
    (step : Forall₂ R xs ys) : Forall₂ R (xs.orderedInsert le a) (ys.orderedInsert le' b) := by
  induction step with
  | nil => exact .cons new .nil
  | @cons c d cs ds head tail ih =>
    have choice := same a b c d new head
    by_cases first : le a c
    · rw [orderedInsert_cons, orderedInsert_cons, if_pos first, if_pos (choice.mp first)]
      exact .cons new (.cons head tail)
    · rw [orderedInsert_cons, orderedInsert_cons, if_neg first,
        if_neg fun later => first (choice.mpr later)]
      exact .cons head ih

theorem inStep_insertionSort (same : ∀ a b c d, R a b → R c d → (le a c ↔ le' b d))
    (step : Forall₂ R xs ys) : Forall₂ R (xs.insertionSort le) (ys.insertionSort le') := by
  induction step with
  | nil => exact .nil
  | cons head _ ih =>
    exact inStep_orderedInsert same head ih

end

end

section
variable {R : α → α' → Prop} {S : β → β' → Prop} {on : α → β → Bool} {on' : α' → β' → Bool}

variable (same : ∀ a a' b b', R a a' → S b b' → on a b = on' a' b')

include same in
theorem inStep_matched {T : γ → γ' → Prop} (pairs : ∀ a a' b b', R a a' → S b b' → T (pair a b) (pair' a' b'))
    (lefts : Forall₂ R left left') (rights : Forall₂ S right right') :
    Forall₂ T (matched pair on left right) (matched pair' on' left' right') := by
  apply rel_flatMap lefts
  intro a a' first
  have partners : Forall₂ S (right.filter (on a)) (right'.filter (on' a')) :=
    inStep_filter (fun b b' second => same a a' b b' first second) rights
  exact rel_map (fun b b' second => pairs a a' b b' first second) partners

theorem inStep_hasPartner {on' : α → β' → Bool} (rights : Forall₂ S right right')
    (same : ∀ a b b', S b b' → on a b = on' a b') : hasPartner on right = hasPartner on' right' :=
  funext fun a => inStep_any (same a) rights

include same in
theorem inStep_lonely (lefts : Forall₂ R left left') (rights : Forall₂ S right right') :
    Forall₂ R (lonely on left right) (lonely on' left' right') := by
  apply inStep_filter _ lefts
  intro a a' first
  exact congrArg not (inStep_any (fun b b' => same a a' b b' first) rights)

include same in
theorem inStep_paired (lefts : Forall₂ R left left') (rights : Forall₂ S right right') :
    Forall₂ R (paired on left right) (paired on' left' right') :=
  inStep_filter (fun a a' first => inStep_any (fun b b' => same a a' b b' first) rights) lefts

end

/-! Outputs that correspond up to the order of the rows. -/

def Similar (R : α → β → Prop) (xs : List α) (ys : List β) : Prop :=
  ∃ zs, xs.Perm zs ∧ Forall₂ R zs ys

section
variable {R : α → α' → Prop} {xs : List α} {ys : List α'}

theorem Similar.length_eq (similar : Similar R xs ys) : xs.length = ys.length := by
  obtain ⟨zs,perm,step⟩ := similar
  rw [perm.length_eq, step.length_eq]

theorem Similar.imp {R' : α → α' → Prop} (similar : Similar R xs ys)
    (weaker : ∀ a, ∀ b ∈ ys, R a b → R' a b) : Similar R' xs ys := by
  obtain ⟨zs,perm,step⟩ := similar
  refine ⟨zs,perm,?_⟩
  rw [forall₂_iff_zip] at step ⊢
  exact ⟨step.1,fun pair => weaker _ _ (of_mem_zip pair).2 (step.2 pair)⟩

theorem Similar.perm (similar : Similar R xs ys) (perm : ys.Perm ys') : Similar R xs ys' := by
  obtain ⟨zs,before,step⟩ := similar
  have both : Relation.Comp (Forall₂ R) Perm zs ys' := ⟨ys,step,perm⟩
  rw [forall₂_comp_perm_eq_perm_comp_forall₂] at both
  obtain ⟨ws,after,step'⟩ := both
  exact ⟨ws,before.trans after,step'⟩

/-- Two lists that correspond to a third correspond to each other. -/
theorem Similar.meet {S : β → α' → Prop} {T : α → β → Prop} (first : Similar R xs ys) (second : Similar S zs ys)
    (meets : ∀ a b c, R a c → S b c → T a b) : Similar T xs zs := by
  obtain ⟨as,perm,step⟩ := first
  obtain ⟨bs,perm',step'⟩ := second
  have common : Forall₂ T as bs := by
    clear perm perm'
    induction step generalizing bs with
    | nil =>
      cases step'
      exact .nil
    | cons head _ ih =>
      cases step' with
      | cons head' tail => exact .cons (meets _ _ _ head head') (ih _ tail)
  exact Similar.perm ⟨as,perm,common⟩ perm'.symm

theorem similar_filter (similar : Similar R xs ys) (same : ∀ a b, R a b → p a = q b) :
    Similar R (xs.filter p) (ys.filter q) := by
  obtain ⟨zs,perm,step⟩ := similar
  exact ⟨_,perm.filter p,inStep_filter same step⟩

theorem similar_map {T : γ → γ' → Prop} (similar : Similar R xs ys) (same : ∀ a b, R a b → T (f a) (g b)) :
    Similar T (xs.map f) (ys.map g) := by
  obtain ⟨zs,perm,step⟩ := similar
  exact ⟨_,perm.map f,rel_map (fun a b => same a b) step⟩

theorem similar_append (first : Similar R xs ys) (second : Similar R xs' ys') :
    Similar R (xs ++ xs') (ys ++ ys') := by
  obtain ⟨zs,perm,step⟩ := first
  obtain ⟨zs',perm',step'⟩ := second
  exact ⟨_,perm.append perm',rel_append step step'⟩

end

section
variable {R : α → α' → Prop} {S : β → β' → Prop} {on : α → β → Bool} {on' : α' → β' → Bool}
  {left : List α} {left' : List α'} {right : List β} {right' : List β'}
  (same : ∀ a a' b b', R a a' → S b b' → on a b = on' a' b')
  (lefts : Similar R left left') (rights : Similar S right right')
include same lefts rights

theorem similar_matched {T : γ → γ' → Prop}
    (pairs : ∀ a a' b b', R a a' → S b b' → T (pair a b) (pair' a' b')) :
    Similar T (matched pair on left right) (matched pair' on' left' right') := by
  obtain ⟨zs,perm,step⟩ := lefts
  obtain ⟨zs',perm',step'⟩ := rights
  exact ⟨_,(perm.flatMap_right _).trans (Perm.flatMap_left _ fun a _ => (perm'.filter _).map _),
    inStep_matched same pairs step step'⟩

/-- The rows kept for having a partner, or for having none. -/
theorem similar_partner (choose : Bool → Bool) :
    Similar R (left.filter fun a => choose (hasPartner on right a))
      (left'.filter fun a => choose (hasPartner on' right' a)) := by
  obtain ⟨zs,perm,step⟩ := rights
  apply similar_filter lefts
  intro a a' first
  exact congrArg choose (perm.any_eq.trans (inStep_any (fun b b' => same a a' b b' first) step))

end

end Relational
