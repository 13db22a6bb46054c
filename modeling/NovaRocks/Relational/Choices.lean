import NovaRocks.Relational.InStep
import Mathlib.Data.Multiset.Bind

/-!
All ways to choose one entry from each of several numbered lists. The order in which the
lists are gone through does not matter, and the choices from two groups of lists are put
together by a join.
-/
namespace Relational
open List
open Function (update update_comm)

variable {α : Type} (lists : Nat → List α) (blank : α)

def choices : List Nat → List (Nat → α)
  | [] => [fun _ => blank]
  | k :: ks => matched (fun a f => update f k a) (fun _ _ => true) (lists k) (choices ks)

def combine (ks : List Nat) (f g : Nat → α) (k : Nat) : α :=
  if k ∈ ks then f k else g k

theorem choices_perm (perm : ks.Perm ls) (nodup : ks.Nodup) :
    (choices lists blank ks).Perm (choices lists blank ls) := by
  induction perm with
  | nil => exact .refl _
  | cons k _ ih => exact Perm.flatMap_left _ fun a _ => ((ih nodup.of_cons).filter _).map _
  | swap k l ks =>
    have other : k ≠ l := by simp_all [eq_comm]
    simp only [choices, matched, filter_true, map_flatMap, map_map, Function.comp_def,
      ← Multiset.coe_eq_coe, ← Multiset.coe_bind, update_comm other]
    exact Multiset.bind_bind _ _
  | trans first _ ih ih' => exact (ih nodup).trans (ih' (first.nodup_iff.mp nodup))

theorem choices_append (ks ls : List Nat) : choices lists blank (ks ++ ls) =
    matched (combine ks) (fun _ _ => true) (choices lists blank ks) (choices lists blank ls) := by
  induction ks with
  | nil => 
    have : combine [] (fun _ => blank) = id := by
      funext g k
      simp [combine]
    simp [choices, matched, this]
  | cons k ks ih =>
    rw [cons_append, choices, ih]
    refine (matched_assoc _ _ _ (fun a f g => funext fun j => ?_) (by simp)).symm
    by_cases same : j = k <;> simp [combine, same]

end Relational
