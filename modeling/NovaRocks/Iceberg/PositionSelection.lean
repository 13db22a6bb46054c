import Mathlib.Data.List.Chain
import Mathlib.Algebra.Ring.Nat

/-!
Row positions as a row selection. Adjacent positions are merged into one selector; the gaps
between the runs are skipped.
-/
namespace NovaRocks.Iceberg
open List

inductive RowSelector where
  | skip (rows : Nat)
  | select (rows : Nat)

namespace RowSelector

def rowCount : RowSelector → Nat
  | skip n => n
  | select n => n

def isSkip : RowSelector → Bool
  | skip _ => true
  | select _ => false

def read : List RowSelector → List α → List α
  | [], _ => []
  | skip n :: rest, rows => read rest (rows.drop n)
  | select n :: rest, rows => rows.take n ++ read rest (rows.drop n)

end RowSelector

open RowSelector

def afterPosition (position : Nat) : Except String Nat :=
  if position + 1 < 2 ^ 64 then .ok (position + 1)
  else .error s!"iceberg position-delete row position {position} overflows row selection"

theorem afterPosition_ok (small : position + 1 < 2 ^ 64) :
    afterPosition position = .ok (position + 1) := if_pos small

/-- The run from `start` to `stop` is open. A position that does not continue it closes it and is
the next one of the outer loop, which opens its own run behind the gap. -/
def runsFrom (start stop : Nat) : List Nat → Except String (List RowSelector)
  | [] => .ok [.select (stop - start)]
  | position :: rest => do
    let next ← afterPosition position
    if position = stop then runsFrom start next rest
    else
      let later ← runsFrom position next rest
      return .select (stop - start) ::
        ((if stop < position then [.skip (position - stop)] else []) ++ later)

def positionsToRowSelection : List Nat → Except String (List RowSelector)
  | [] => .ok []
  | position :: rest => do
    let next ← afterPosition position
    let later ← runsFrom position next rest
    return (if 0 < position then [.skip position] else []) ++ later

/-- Selectors read from position `start` on, against the positions wanted from there on. -/
structure Selects (start : Nat) (wanted : List Nat) (selectors : List RowSelector) : Prop where
  alternate : selectors.IsChain fun a b => a.isSkip ≠ b.isSkip
  positive : ∀ s ∈ selectors, 0 < s.rowCount
  total : start + (selectors.map RowSelector.rowCount).sum = wanted.getLast?.elim start (· + 1)
  reads : ∀ {α : Type} (rows : List α),
    RowSelector.read selectors (rows.drop start) = wanted.filterMap (rows[·]?)

theorem take_drop_eq_filterMap (rows : List α) (start count : Nat) :
    (rows.drop start).take count = (range' start count).filterMap (rows[·]?) := by
  induction count generalizing start with
  | zero => simp
  | succ count ih =>
    rw [range'_succ, filterMap_cons, ← ih (start + 1)]
    by_cases inside : start < rows.length
    · rw [drop_eq_getElem_cons inside, getElem?_eq_getElem inside, take_succ_cons]
    · rw [drop_eq_nil_of_le (by omega), drop_eq_nil_of_le (by omega), getElem?_eq_none (by omega),
        take_nil, take_nil]

theorem Selects.skip (selects : Selects position wanted later) (gap : start < position)
    (nonempty : wanted ≠ []) (first : ∀ s ∈ later.head?, s.isSkip = false) :
    Selects start wanted (.skip (position - start) :: later) where
  alternate := by
    refine selects.alternate.cons fun s isHead => ?_
    rw [first s isHead, isSkip]
    decide
  positive := forall_mem_cons.mpr ⟨Nat.sub_pos_of_lt gap,selects.positive⟩
  total := by
    have total := selects.total
    obtain ⟨last,isLast⟩ := Option.ne_none_iff_exists'.mp (mt getLast?_eq_none_iff.mp nonempty)
    simp only [isLast, Option.elim_some, map_cons, sum_cons, rowCount] at total ⊢
    omega
  reads := by
    intro α rows
    rw [RowSelector.read, drop_drop, Nat.add_sub_cancel' (Nat.le_of_lt gap), selects.reads]

theorem Selects.select (selects : Selects stop wanted later) (openRun : start < stop)
    (first : ∀ s ∈ later.head?, s.isSkip = true) :
    Selects start (range' start (stop - start) ++ wanted) (.select (stop - start) :: later) where
  alternate := by
    refine selects.alternate.cons fun s isHead => ?_
    rw [first s isHead, isSkip]
    decide
  positive := forall_mem_cons.mpr ⟨Nat.sub_pos_of_lt openRun,selects.positive⟩
  total := by
    have total := selects.total
    simp only [getLast?_append, getLast?_range', map_cons, sum_cons, rowCount]
    cases isLast : wanted.getLast? <;> simp [isLast] at total ⊢ <;> grind
  reads := by
    intro α rows
    rw [RowSelector.read, drop_drop, Nat.add_sub_cancel' (Nat.le_of_lt openRun), selects.reads,
      filterMap_append, take_drop_eq_filterMap]

theorem Selects.none (start : Nat) : Selects start [] [] := by
  exact ⟨by simp,by simp,rfl,fun rows => rfl⟩

theorem runsFrom_selects (openRun : start < stop) (ahead : ∀ p ∈ rest, stop ≤ p ∧ p + 1 < 2 ^ 64)
    (ordered : rest.Pairwise (· < ·)) :
    ∃ selectors, runsFrom start stop rest = .ok selectors ∧ (∀ s ∈ selectors.head?, s.isSkip = false) ∧
      Selects start (range' start (stop - start) ++ rest) selectors := by
  -- The positions below `stop` that are still to be selected are those of the open run.
  induction rest generalizing start stop with
  | nil => exact ⟨_,rfl,by simp [isSkip],(Selects.none stop).select openRun (by simp)⟩
  | cons position rest ih =>
    obtain ⟨⟨reached,small⟩,ahead⟩ := forall_mem_cons.mp ahead
    obtain ⟨above,ordered⟩ := pairwise_cons.mp ordered
    have later : ∀ p ∈ rest, position + 1 ≤ p ∧ p + 1 < 2 ^ 64 :=
      fun p isIn => ⟨above p isIn,(ahead p isIn).2⟩
    by_cases continues : position = stop
    · obtain ⟨selectors,done,first,selects⟩ := ih (by omega : start < position + 1) later ordered
      refine ⟨selectors,?_,first,?_⟩
      · rw [runsFrom, afterPosition_ok small]
        exact (if_pos continues).trans done
      have longer : position + 1 - start = stop - start + 1 := by omega
      have next : start + (stop - start) = position := by omega
      rwa [longer, range'_1_concat, next, append_assoc] at selects
    · obtain ⟨selectors,done,first,selects⟩ := ih (Nat.lt_add_one position) later ordered
      have gap : stop < position := by omega
      simp only [Nat.add_sub_cancel_left, range'_one, singleton_append] at selects
      have behind := selects.skip gap (by simp) first
      refine ⟨_,?_,by simp [isSkip],behind.select openRun (by simp [isSkip])⟩
      simp only [runsFrom, afterPosition_ok small, bind, Except.bind, continues, done, gap]
      rfl

theorem position_selection_exact {positions : List Nat} (ordered : positions.Pairwise (· < ·))
    (small : ∀ p ∈ positions, p < 2 ^ 63) :
    ∃ selectors, positionsToRowSelection positions = .ok selectors ∧ Selects 0 positions selectors := by
  cases positions with
  | nil => exact ⟨[],rfl,.none 0⟩
  | cons position rest =>
    obtain ⟨above,ordered⟩ := pairwise_cons.mp ordered
    have bounded : position + 1 < 2 ^ 64 := by
      have := small position mem_cons_self
      omega
    have later : ∀ p ∈ rest, position + 1 ≤ p ∧ p + 1 < 2 ^ 64 := by
      intro p isIn
      have := above p isIn
      have := small p (mem_cons_of_mem _ isIn)
      omega
    obtain ⟨selectors,done,first,selects⟩ := runsFrom_selects (Nat.lt_add_one position) later ordered
    refine ⟨(if 0 < position then [.skip position] else []) ++ selectors,?_,?_⟩
    · simp only [positionsToRowSelection, afterPosition_ok bounded, bind, Except.bind, done]
      rfl
    · by_cases gap : 0 < position
      · simpa [gap] using selects.skip gap (by simp) first
      · obtain rfl : position = 0 := by omega
        exact selects

theorem position_selection_exact_gap :
    ∃ selectors, positionsToRowSelection [1, 2, 5] = .ok selectors ∧ Selects 0 [1, 2, 5] selectors :=
  position_selection_exact (by decide) (by decide)

end NovaRocks.Iceberg
