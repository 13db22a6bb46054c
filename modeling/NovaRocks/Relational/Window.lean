import Mathlib.Data.ENat.Lattice
import NovaRocks.Relational.TopN

/-!
Windows of a list: what a limit and an offset leave of the rows that come, and how a
window stands to a filter, to a further window and to a change of the rows' order.
Limits are counts that may be absent; bounds on row counts are extended numbers.
-/
namespace Relational
open List hiding min

/-- A linear preorder of rows, as a list of sort keys gives one. -/
structure SortOrder (α : Type) where
  le : α → α → Bool
  total : ∀ a b, le a b ∨ le b a
  trans : ∀ a b c, le a b → le b c → le a c

def SortOrder.nat : SortOrder Nat where
  le a b := decide (a ≤ b)
  total a b := by simpa using Nat.le_total a b
  trans a b c := by
    simp only [decide_eq_true_eq]
    exact Nat.le_trans

/-- The rows after the first `offset`, at most `limit` of them. -/
def window {α : Type} (limit : Option Nat) (offset : Nat) (rows : List α) : List α :=
  match limit with
  | none => rows.drop offset
  | some n => (rows.drop offset).take n

def bound : Option Nat → ℕ∞
  | none => ⊤
  | some n => n

@[simp] theorem le_bound_some {k n : Nat} : (k : ℕ∞) ≤ bound (some n) ↔ k ≤ n :=
  Nat.cast_le

@[simp] theorem le_bound_none {k : Nat} : (k : ℕ∞) ≤ bound none :=
  le_top

section
variable {α : Type} {rows out : List α} {offset n : Nat}

@[simp] theorem window_none_zero (rows : List α) : window none 0 rows = rows := rfl

theorem length_window_le (limit : Option Nat) (offset : Nat) (short : (rows.length : ℕ∞) ≤ most) :
    ((window limit offset rows).length : ℕ∞) ≤ min (bound limit) (most - offset) := by
  have left : ((rows.length - offset : ℕ) : ℕ∞) ≤ most - offset := by
    exact tsub_le_tsub_right short _
  cases limit with
  | none => simpa [window, bound] using left
  | some n =>
    rw [window, length_take, length_drop, le_min_iff]
    refine ⟨Nat.cast_le.mpr (Nat.min_le_left _ _),le_trans ?_ left⟩
    exact Nat.cast_le.mpr (Nat.min_le_right _ _)

theorem window_of_length_le (short : rows.length ≤ n) : window (some n) 0 rows = rows := by
  simp [window, take_of_length_le short]

theorem window_of_skipped (short : rows.length ≤ offset) : window limit offset rows = [] := by
  cases limit <;> simp [window, drop_of_length_le short]

theorem window_perm_of_length_le (perm : out.Perm rows)
    (short : (rows.length : ℕ∞) ≤ bound limit) : window limit 0 out = out := by
  cases limit with
  | none => rfl
  | some n =>
    apply window_of_length_le
    rw [perm.length_eq]
    exact le_bound_some.mp short

theorem window_drop (limit : Option Nat) (offset : Nat) (rows : List α) :
    window limit offset rows = window limit 0 (rows.drop offset) := by
  cases limit <;> rfl

theorem window_window (reach : min (bound outer) rows.length ≤ bound limit) :
    window outer 0 (window limit 0 rows) = window outer 0 rows := by
  cases limit with
  | none => rfl
  | some n =>
    cases outer with
    | none =>
      have short : rows.length ≤ n := by simpa [bound] using reach
      exact window_of_length_le short
    | some m =>
      have near : m ≤ n ∨ rows.length ≤ n := by simpa [bound] using reach
      rcases near with inside | short
      · simp [window, take_take, Nat.min_eq_left inside]
      · rw [window_of_length_le short]

theorem filter_window (reach : min (bound outer) rows.length ≤ bound limit)
    (back : min (bound limit) rows.length ≤ bound outer) :
    (window outer 0 rows).filter keep = window outer 0 ((window limit 0 rows).filter keep) := by
  have same : window limit 0 rows = window outer 0 rows := by
    cases limit with
    | none =>
      cases outer with
      | none => rfl
      | some m =>
        have short : rows.length ≤ m := by simpa [bound] using back
        exact (window_of_length_le short).symm
    | some n =>
      rw [← window_window reach]
      cases outer with
      | none => rfl
      | some m =>
        have near : n ≤ m ∨ rows.length ≤ m := by simpa [bound] using back
        apply (window_of_length_le _).symm
        rw [window, length_take, length_drop]
        omega
  rw [same]
  cases outer with
  | none => rfl
  | some m =>
    symm
    apply window_of_length_le
    exact (length_filter_le _ _).trans (length_take_le _ _)

theorem window_window_offset (reach : min (offset + bound outer) rows.length ≤ bound limit) :
    window outer offset (window limit 0 rows) = window outer offset rows := by
  cases limit with
  | none => rfl
  | some n =>
    by_cases short : rows.length ≤ n
    · rw [window_of_length_le short]
    · cases outer with
      | none => exact absurd (by simpa [bound] using reach) short
      | some m =>
        have inside : offset + m ≤ n := by
          have either : ((offset + m : ℕ) : ℕ∞) ≤ n ∨ rows.length ≤ n := by
            simpa [bound] using reach
          rcases either with inside | within
          · exact_mod_cast inside
          · exact absurd within short
        simp only [window, drop_zero, drop_take, take_take]
        rw [Nat.min_eq_left (by omega)]

theorem exists_perm_filter_window (limit : Option Nat) (keep predicate : α → Bool) (rows : List α) :
    ∃ other : List α, other.Perm rows ∧ (window limit 0 (other.filter keep)).filter predicate =
      window limit 0 (rows.filter fun row => keep row && predicate row) := by
  refine ⟨_,filter_append_perm predicate rows,?_⟩
  have first : (rows.filter predicate).filter keep =
      rows.filter fun row => keep row && predicate row := filter_filter
  have kept : ∀ part : List α, part.Sublist (rows.filter fun row => keep row && predicate row) →
      part.filter predicate = part := by
    intro part inside
    apply filter_eq_self.mpr
    intro row member
    have both := of_mem_filter (inside.subset member)
    exact (Bool.and_eq_true_iff.mp both).2
  have dropped : ∀ part : List α, part.Sublist ((rows.filter fun row => !predicate row).filter keep) →
      part.filter predicate = [] := by
    intro part inside
    apply filter_eq_nil_iff.mpr
    intro row member passes
    have rejected := of_mem_filter (mem_of_mem_filter (inside.subset member))
    simp [passes] at rejected
  rw [filter_append, first]
  cases limit with
  | none =>
    change filter predicate (_ ++ _) = _
    rw [filter_append, kept _ (Sublist.refl _), dropped _ (Sublist.refl _)]
    exact append_nil _
  | some n =>
    change filter predicate (take n (_ ++ _)) = take n _
    rw [take_append, filter_append, kept _ (take_sublist _ _), dropped _ (take_sublist _ _)]
    exact append_nil _

theorem exists_perm_window_filter (perm : out.Perm (window limit 0 (rows.filter keep))) :
    ∃ other : List α, other.Perm rows ∧ window limit 0 (other.filter keep) = out := by
  have inside : ∀ row ∈ out, keep row := by
    intro row member
    have taken := perm.mem_iff.mp member
    have kept : row ∈ rows.filter keep := by
      cases limit with
      | none => exact taken
      | some n => exact mem_of_mem_take taken
    exact of_mem_filter kept
  have mine : out.filter keep = out := filter_eq_self.mpr inside
  have others : (rows.filter fun row => !keep row).filter keep = [] := by
    apply filter_eq_nil_iff.mpr
    intro row member passes
    have rejected := of_mem_filter member
    simp [passes] at rejected
  have whole := filter_append_perm keep rows
  cases limit with
  | none =>
    refine ⟨out ++ rows.filter fun row => !keep row,(perm.append_right _).trans whole,?_⟩
    change filter keep _ = out
    rw [filter_append, mine, others, append_nil]
  | some n =>
    have rest : ((rows.filter keep).drop n).filter keep = (rows.filter keep).drop n := by
      apply filter_eq_self.mpr
      intro row member
      exact of_mem_filter (mem_of_mem_drop member)
    have taken : out.Perm ((rows.filter keep).take n) := perm
    refine ⟨out ++ (rows.filter keep).drop n ++ rows.filter fun row => !keep row,?_,?_⟩
    · refine Perm.trans (Perm.append_right _ ?_) whole
      simpa using taken.append_right ((rows.filter keep).drop n)
    · change take n (filter keep _) = out
      rw [filter_append, filter_append, mine, rest, others, append_nil]
      have size := taken.length_eq
      rw [length_take] at size
      by_cases long : n ≤ (rows.filter keep).length
      · rw [take_append_of_le_length (by omega), take_of_length_le (by omega)]
      · rw [drop_of_length_le (by omega), append_nil, take_of_length_le (by omega)]

theorem exists_perm_map {β : Type} {f : α → β} {image : List β} (perm : image.Perm (rows.map f)) :
    ∃ other : List α, other.Perm rows ∧ other.map f = image := by
  have related : Forall₂ (fun b a => f a = b) (rows.map f) rows :=
    forall₂_map_left_iff.mpr (forall₂_same.mpr fun _ _ => rfl)
  obtain ⟨other,alike,same⟩ := perm_comp_forall₂ perm related
  refine ⟨other,same,?_⟩
  clear perm related same
  induction alike with
  | nil => rfl
  | cons equal _ ih => rw [map_cons, equal, ih]

theorem Sorts.length_le {le : α → α → Prop} (sorts : Sorts le rows out)
    (short : (rows.length : ℕ∞) ≤ most) : (out.length : ℕ∞) ≤ most := by
  rw [sorts.1.length_eq]
  exact short

theorem Sorts.eq_range' {start count : Nat} (sorts : Sorts (fun a b => SortOrder.nat.le a b) input sorted)
    (perm : input.Perm (range' start count)) : sorted = range' start count := by
  have same := sorts.1.trans perm
  refine Perm.eq_of_pairwise ?_ sorts.2 ?_ same
  · intro a b _ _ ab ba
    simp only [SortOrder.nat, decide_eq_true_eq] at ab ba
    omega
  · apply Pairwise.imp ?_ (pairwise_lt_range' (s := start) (n := count))
    simp only [SortOrder.nat, decide_eq_true_eq]
    omega

theorem window_range' (limit : Option Nat) (offset start count : Nat) (fits : (count : ℕ∞) ≤ bound limit) :
    window limit offset (range' start (count + offset)) = range' (start + offset) count := by
  have skipped : (range' start (count + offset)).drop offset = range' (start + offset) count := by
    rw [drop_range', Nat.mul_one, Nat.add_sub_cancel]
  cases limit with
  | none => exact skipped
  | some n =>
    have few : count ≤ n := le_bound_some.mp fits
    change take n _ = _
    rw [skipped, take_of_length_le (by rw [length_range']; exact few)]

end

end Relational
