import Mathlib.Data.List.FinRange
import Mathlib.Data.List.Perm.Basic

/-!
Several parties, each with a list of its own. What one party adds to its list is added to
the lists of all, up to order; a party that passes a test it failed before adds one to the
number that pass.
-/
namespace NovaRocks.Store
open List

variable {n : Nat} {γ : Type}

def gathered (parts : Fin n → List γ) : List γ :=
  (List.finRange n).flatMap parts

theorem finRange_split (party : Fin n) :
    ∃ before after, finRange n = before ++ party :: after ∧ party ∉ before ∧ party ∉ after := by
  obtain ⟨before,after,split⟩ := append_of_mem (mem_finRange party)
  have apart := nodup_finRange n
  rw [split, nodup_append] at apart
  obtain ⟨-,last,disjoint⟩ := apart
  refine ⟨before,after,split,?_,(nodup_cons.mp last).1⟩
  intro member
  exact disjoint party member party mem_cons_self rfl

theorem gathered_update {parts : Fin n → List γ} (more : grown.Perm (parts party ++ added)) :
    (gathered (Function.update parts party grown)).Perm (gathered parts ++ added) := by
  obtain ⟨before,after,split,notBefore,notAfter⟩ := finRange_split party
  have kept : ∀ others : List (Fin n), party ∉ others →
      others.flatMap (Function.update parts party grown) = others.flatMap parts := by
    intro others absent
    apply flatMap_congr
    intro other member
    have different : other ≠ party := ne_of_mem_of_not_mem member absent
    rw [Function.update_of_ne different]
  unfold gathered
  rw [split, flatMap_append, flatMap_append, flatMap_cons, flatMap_cons,
    kept before notBefore, kept after notAfter, Function.update_self, append_assoc, append_assoc]
  apply Perm.append_left
  calc (grown ++ after.flatMap parts).Perm (parts party ++ added ++ after.flatMap parts) :=
        Perm.append_right _ more
    _ = parts party ++ (added ++ after.flatMap parts) := append_assoc ..
    Perm _ (parts party ++ (after.flatMap parts ++ added)) :=
        Perm.append_left _ perm_append_comm

/-! ### Counting the parties that pass a test -/

def counted (test : Fin n → Bool) : Nat :=
  (List.finRange n).countP test

variable {test : Fin n → Bool}

theorem counted_eq_all : counted test = n ↔ ∀ party, test party = true := by
  have all := countP_eq_length (p := test) (l := finRange n)
  rw [length_finRange] at all
  rw [counted, all]
  exact ⟨fun passed party => passed party (mem_finRange party),fun passed party _ => passed party⟩

theorem counted_le (test : Fin n → Bool) : counted test ≤ n := by
  have bound := countP_le_length (p := test) (l := finRange n)
  rw [length_finRange] at bound
  exact bound

theorem counted_eq_zero : counted test = 0 ↔ ∀ party, test party = false := by
  simp [counted, countP_eq_zero]

theorem counted_update (failed : test party = false) :
    counted (Function.update test party true) = counted test + 1 := by
  obtain ⟨before,after,split,notBefore,notAfter⟩ := finRange_split party
  have kept : ∀ others : List (Fin n), party ∉ others →
      others.countP (Function.update test party true) = others.countP test := by
    intro others absent
    apply countP_congr
    intro other member
    have different : other ≠ party := ne_of_mem_of_not_mem member absent
    rw [Function.update_of_ne different]
  unfold counted
  rw [split, countP_append, countP_append, countP_cons, countP_cons,
    kept before notBefore, kept after notAfter, Function.update_self, failed]
  simp
  omega

end NovaRocks.Store
