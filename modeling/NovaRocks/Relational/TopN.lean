import Mathlib.Data.List.Sort
import Mathlib.Data.List.Perm.Subperm

/-!
The first rows of a sort. Rows that tie may come in any order, so the operator is
a relation: it may return a window of any sorted arrangement of its input. Taking
the first rows of each part before the parts are put together loses nothing.
-/
namespace Relational
open List

section
variable {α : Type} (le : α → α → Prop)

def Sorts (input sorted : List α) : Prop :=
  sorted.Perm input ∧ sorted.Pairwise le

/-- `limit` rows of a sorted arrangement, after the first `offset`. -/
def TopN (limit offset : Nat) (input out : List α) : Prop :=
  ∃ sorted, Sorts le input sorted ∧ out = (sorted.drop offset).take limit

end

section
variable {α : Type} {le : α → α → Prop} {limit offset count : Nat}

theorem Sorts.exists_of_total (total : ∀ a b, le a b ∨ le b a)
    (trans : ∀ a b c, le a b → le b c → le a c) (input : List α) : ∃ sorted, Sorts le input sorted := by
  classical
  have : Std.Total le := ⟨total⟩
  have : IsTrans α le := ⟨trans⟩
  exact ⟨input.insertionSort le,perm_insertionSort le input,pairwise_insertionSort le input⟩

theorem countP_not_before (refl : ∀ a, le a a) {sorted : List α}
    (pairwise : sorted.Pairwise le) (early : a ∈ sorted.take count) (before : α → Bool)
    (spec : ∀ x, before x → ¬ le a x) : sorted.countP before < count := by
  have parts := take_append_drop count sorted
  have short := length_take_le count sorted
  generalize sorted.drop count = later at parts
  generalize sorted.take count = first at early parts short
  obtain ⟨front,back,rfl⟩ := append_of_mem early
  rw [← parts, append_assoc, cons_append] at pairwise
  have after : ∀ x ∈ a :: (back ++ later), le a x :=
    forall_mem_cons.mpr ⟨refl a,fun _ => rel_of_pairwise_cons (pairwise_append.mp pairwise).2.1⟩
  have none' : (a :: (back ++ later)).countP before = 0 := by
    rw [countP_eq_zero]
    intro x member earlier
    exact spec x earlier (after x member)
  have few := countP_le_length (p := before) (l := front)
  rw [← parts, append_assoc, cons_append, countP_append, none']
  rw [length_append, length_cons] at short
  omega

theorem TopN.cut (cuts : Forall₂ (TopN le count 0) parts outs) :
    ∃ rest, (outs.flatten ++ rest).Perm parts.flatten ∧
      ∀ b ∈ rest, ∃ below : List α, below.Subperm outs.flatten ∧ below.length = count ∧
        ∀ x ∈ below, le x b := by
  induction cuts with
  | nil => exact ⟨[],Perm.refl _,by simp⟩
  | @cons part out parts outs top _ ih =>
    obtain ⟨rest,perm,behind⟩ := ih
    obtain ⟨sorted,⟨same,pairwise⟩,rfl⟩ := top
    refine ⟨sorted.drop count ++ rest,?_,?_⟩
    · have whole := take_append_drop count sorted
      calc
        (sorted.take count ++ outs.flatten ++ (sorted.drop count ++ rest)).Perm
            ((sorted.take count ++ sorted.drop count) ++ (outs.flatten ++ rest)) := by
          rw [append_assoc, append_assoc]
          exact (perm_append_comm_assoc _ _ _).append_left _
        _ = sorted ++ (outs.flatten ++ rest) := by rw [whole]
        (sorted ++ (outs.flatten ++ rest)).Perm (part ++ parts.flatten) := same.append perm
    · intro b member
      rcases mem_append.mp member with own | other
      · refine ⟨sorted.take count,(sublist_append_left _ _).subperm,?_,?_⟩
        · have long := length_pos_of_mem own
          rw [length_drop] at long
          rw [length_take]
          omega
        · intro x early
          rw [← take_append_drop count sorted] at pairwise
          exact (pairwise_append.mp pairwise).2.2 x early b own
      · obtain ⟨below,inside,length,before⟩ := behind b other
        exact ⟨below,inside.trans (sublist_append_right _ _).subperm,length,before⟩

/-- The window of the parts' first rows is a window of the whole. -/
theorem TopN.of_parts (total : ∀ a b, le a b ∨ le b a) (trans : ∀ a b c, le a b → le b c → le a c)
    (cuts : Forall₂ (TopN le (offset + limit) 0) parts outs)
    (final : TopN le limit offset outs.flatten out) : TopN le limit offset parts.flatten out := by
  classical
  have refl : ∀ a, le a a := fun a => (total a a).elim id id
  obtain ⟨rest,perm,behind⟩ := TopN.cut cuts
  obtain ⟨merged,⟨same,pairwise⟩,rfl⟩ := final
  obtain ⟨tail,tailPerm,tailSorted⟩ :=
    Sorts.exists_of_total total trans (merged.drop (offset + limit) ++ rest)
  have halves := take_append_drop (offset + limit) merged
  -- a row that was cut off stands behind a full window of its part
  have ahead : ∀ a ∈ merged.take (offset + limit), ∀ b ∈ tail, le a b := by
    intro a early b late
    rcases mem_append.mp (tailPerm.mem_iff.mp late) with own | other
    · rw [← halves] at pairwise
      exact (pairwise_append.mp pairwise).2.2 a early b own
    · obtain ⟨below,inside,length,before⟩ := behind b other
      by_contra wrong
      have all : below.countP (fun x => decide (¬ le a x)) = below.length := by
        rw [countP_eq_length]
        intro x member
        exact decide_eq_true fun smaller => wrong (trans a x b smaller (before x member))
      have many := (inside.trans same.symm.subperm).countP_le fun x => decide (¬ le a x)
      have few := countP_not_before refl pairwise early (fun x => decide (¬ le a x))
        fun x earlier => of_decide_eq_true earlier
      omega
  refine ⟨merged.take (offset + limit) ++ tail,⟨?_,?_⟩,?_⟩
  · calc
      (merged.take (offset + limit) ++ tail).Perm
          (merged.take (offset + limit) ++ (merged.drop (offset + limit) ++ rest)) :=
        tailPerm.append_left _
      _ = merged ++ rest := by rw [← append_assoc, halves]
      (merged ++ rest).Perm (outs.flatten ++ rest) := same.append_right _
      (outs.flatten ++ rest).Perm parts.flatten := perm
  · exact pairwise_append.mpr
      ⟨pairwise.sublist (take_sublist _ _),tailSorted,ahead⟩
  · have front : (merged.take (offset + limit) ++ tail).take (offset + limit) =
        merged.take (offset + limit) := by
      rcases Nat.lt_or_ge merged.length (offset + limit) with short | long
      · -- no part was cut, for a cut part alone would fill the window
        have uncut : rest = [] := by
          rw [eq_nil_iff_forall_not_mem]
          intro b member
          obtain ⟨below,inside,length,_⟩ := behind b member
          have fits := (inside.trans same.symm.subperm).length_le
          omega
        rw [uncut, drop_eq_nil_of_le (by omega), append_nil] at tailPerm
        rw [tailPerm.eq_nil, append_nil, take_take, Nat.min_self]
      · rw [take_append_of_le_length (by rw [length_take]; omega), take_take, Nat.min_self]
    rw [take_drop, take_drop, front]

end

end Relational
