import NovaRocks.Codegen.StackFaithful

/-!
The condition on a stack is exact. Stacks over numbers, which filter at most the least
number that reaches their topmost segment, tell apart every two windows and every two
places of a filter that differ at all.
-/
namespace NovaRocks.Codegen
open Relational
open PhysicalPlan (exists_enters finish keep)
open List hiding min
open Nat (cast_le cast_zero succ_pos)

/-- A stack of a given shape over numbers, with one predicate for the filters of the topmost
segment: below it nothing is filtered, every sort is by the number and nothing is computed. -/
def Shape.fill (predicate : Nat → Bool) : Shape → PhysicalPlan Nat
  | .leaf => .leaf
  | .filter child => .filter predicate (child.fill predicate)
  | .limit count offset child => .limit count offset (child.fill predicate)
  | .sort child => .sort .nat (child.fill fun _ => true)
  | .topN count offset child => .topN .nat count offset (child.fill fun _ => true)
  | .splitTopN count offset firstLimit firstOffset child =>
    .splitTopN .nat count offset firstLimit firstOffset (child.fill fun _ => true)
  | .project child => .project id (child.fill fun _ => true)
  | .subqueryAlias child => .subqueryAlias (child.fill predicate)

@[simp] theorem Shape.fill_shape (shape : Shape) (predicate : Nat → Bool) :
    (shape.fill predicate).shape = shape := by
  induction shape generalizing predicate with
  | leaf => rfl
  | _ => simp_all [Shape.fill, PhysicalPlan.shape]

def Shape.skipped : Shape → Nat
  | .leaf => 0
  | .filter child => child.skipped
  | .limit _ offset child => child.skipped + offset.getD 0
  | .sort child => child.skipped
  | .topN _ offset child => child.skipped + offset.getD 0
  | .splitTopN _ offset _ firstOffset child =>
    child.skipped + firstOffset.getD 0 + offset.getD 0
  | .project child => child.skipped
  | .subqueryAlias child => child.skipped

theorem cast_add_le {k offset : Nat} (positive : 0 < k) (fits : (k : ℕ∞) ≤ most - offset) :
    ((k + offset : Nat) : ℕ∞) ≤ most := by
  cases most with
  | top => exact le_top
  | coe most =>
    norm_cast at *
    omega

theorem min_of_sum {k offset : Nat} (fits : (k : ℕ∞) ≤ bound limit) :
    ((k + offset : Nat) : ℕ∞) ≤ offset + bound limit := by
  rw [Nat.add_comm, Nat.cast_add]
  exact add_le_add_right fits _

theorem Segment.AllowsLimit.room {segment : Segment} {limit offset : Option Nat} {k : Nat}
    (allows : segment.AllowsLimit limit offset)
    (placed : (∀ useTopN, segment.head ≠ .sort useTopN) → offset = none) (positive : 0 < k)
    (fits : (k : ℕ∞) ≤ (segment.limitTo limit offset).most) :
    (k : ℕ∞) ≤ bound limit ∧ ((k + offset.getD 0 : Nat) : ℕ∞) ≤ segment.most := by
  unfold Segment.AllowsLimit at allows
  by_cases kind : ∃ useTopN, segment.head = .sort useTopN
  · obtain ⟨useTopN,kind⟩ := kind
    rw [kind] at allows
    rw [Segment.limitTo_sort kind] at fits
    obtain ⟨inside,left⟩ := le_min_iff.mp fits
    have total : ((k + offset.getD 0 : Nat) : ℕ∞) ≤ segment.rows := cast_add_le positive left
    refine ⟨inside,?_⟩
    rcases allows with rfl | beyond | ⟨start,reach,_⟩
    · have none' := le_bound_some.mp inside
      omega
    · have under := cast_le.mp (total.trans beyond)
      omega
    · rw [Segment.most, start, cast_zero, tsub_zero]
      exact le_min ((le_min (min_of_sum inside) total).trans reach) total
  · have noSort := not_exists.mp kind
    rw [Segment.limitTo_other noSort] at fits
    obtain ⟨inside,left⟩ := le_min_iff.mp fits
    rw [placed noSort]
    cases limit with
    | none => exact ⟨le_top,fits⟩
    | some m =>
      refine ⟨inside,le_min ?_ left⟩
      cases held : segment.limit with
      | none => exact le_top
      | some n =>
        cases other : segment.head with
        | sort useTopN => exact absurd other (noSort useTopN)
        | plain =>
          rw [other] at allows
          rcases allows m n rfl held with less | few
          · exact inside.trans (cast_le.mpr less)
          · exact (left.trans tsub_le_self).trans few
        | exchange =>
          rw [other] at allows
          rw [← held]
          exact (le_min inside left).trans (allows m rfl).1

variable {shape : Shape}

/-- Over the right count of numbers a stack that filters nothing returns the `k` numbers after
those it skips, in their order if it has one. -/
theorem Shape.fill_returns (accepted : shape.Accepted) (kept : shape.LevelsKept)
    {k : Nat} (positive : 0 < k) (fits : (k : ℕ∞) ≤ shape.segment.most)
    (returns : (shape.fill fun _ => true).Returns (range' 0 (k + shape.skipped)) out) :
    out.Perm (range' shape.skipped k) ∧
      (shape.segment.ordered → out = range' shape.skipped k) := by
  induction shape generalizing k out with
  | leaf => exact ⟨returns,fun ordered => absurd ordered Bool.false_ne_true⟩
  | filter child ih =>
    obtain ⟨rows,under,rfl⟩ := returns
    rw [filter_true]
    exact ih accepted kept.1 positive fits under
  | subqueryAlias child ih => exact ih accepted kept positive fits returns
  | limit count offset child ih =>
    obtain ⟨rows,under,rfl⟩ := returns
    obtain ⟨inside,room⟩ := kept.2.room accepted.placed positive fits
    rw [Shape.skipped, Nat.add_comm child.skipped, ← Nat.add_assoc] at under
    obtain ⟨perm,same⟩ := ih accepted.1 kept.1 (by omega) room under
    rw [Shape.segment, Segment.limitTo_ordered, Shape.skipped]
    cases ordered : child.segment.ordered with
    | true =>
      rw [same ordered, window_range' _ _ _ _ inside]
      exact ⟨Perm.refl _,fun _ => rfl⟩
    | false =>
      have plain := Shape.plain_of_unordered ordered
      have unplaced := accepted.placed (by simp [plain])
      subst unplaced
      have short : ((range' child.skipped k).length : ℕ∞) ≤ bound count := by
        rw [length_range']
        exact inside
      exact ⟨(window_perm_of_length_le perm short).symm ▸ perm,fun no => absurd no Bool.false_ne_true⟩
  | sort child ih =>
    obtain ⟨rows,under,sorted,sorts,equal⟩ := returns
    rw [Shape.segment, Segment.most, cast_zero, tsub_zero] at fits
    have perm := (ih accepted kept positive (le_min_iff.mp fits).2 under).1
    have same : out = range' child.skipped k := equal.trans (sorts.eq_range' perm)
    exact ⟨same ▸ Perm.refl _,fun _ => same⟩
  | topN count offset child ih =>
    obtain ⟨rows,under,sorted,sorts,rfl⟩ := returns
    have inside : (k : ℕ∞) ≤ bound count := (le_min_iff.mp fits).1
    have left : (k : ℕ∞) ≤ child.segment.most - (offset.getD 0 : Nat) := (le_min_iff.mp fits).2
    rw [Shape.skipped, Nat.add_comm child.skipped, ← Nat.add_assoc] at under
    have perm := (ih accepted.1 kept (by omega) (cast_add_le positive left) under).1
    rw [sorts.eq_range' perm, Shape.skipped, window_range' _ _ _ _ inside]
    exact ⟨Perm.refl _,fun _ => rfl⟩
  | splitTopN count offset firstLimit firstOffset child ih =>
    obtain ⟨rows,under,first,⟨early,sortsEarly,rfl⟩,sorted,sorts,rfl⟩ := returns
    have inside : (k : ℕ∞) ≤ bound count := (le_min_iff.mp fits).1
    have left : (k : ℕ∞) ≤ min (bound firstLimit) (child.segment.most - (firstOffset.getD 0 : Nat)) -
        (offset.getD 0 : Nat) := (le_min_iff.mp fits).2
    obtain ⟨within,deep⟩ := le_min_iff.mp (cast_add_le positive left)
    have regroup : k + (child.skipped + firstOffset.getD 0 + offset.getD 0) =
        k + offset.getD 0 + firstOffset.getD 0 + child.skipped := by omega
    rw [Shape.skipped, regroup] at under
    have perm := (ih accepted.1 kept (by omega) (cast_add_le (by omega) deep) under).1
    rw [sortsEarly.eq_range' perm, window_range' _ _ _ _ within] at sorts
    rw [sorts.eq_range' (Perm.refl _), Shape.skipped, window_range' _ _ _ _ inside]
    exact ⟨Perm.refl _,fun _ => rfl⟩
  | project child ih =>
    obtain ⟨rows,under,rfl⟩ := returns
    rw [Shape.segment, Segment.most, cast_zero, tsub_zero] at fits
    rw [map_id]
    exact ih accepted kept positive (le_min_iff.mp fits).2 under

def Shape.entry : Shape → Nat
  | .leaf => 0
  | .filter child => child.entry
  | .limit _ _ child => child.entry
  | .sort child => child.skipped
  | .topN _ _ child => child.skipped
  | .splitTopN _ _ _ firstOffset child => child.skipped + firstOffset.getD 0
  | .project child => child.skipped
  | .subqueryAlias child => child.entry

theorem Shape.fill_enters {contents rows : List Nat} (accepted : shape.Accepted)
    (kept : shape.LevelsKept) {k : Nat} (positive : 0 < k) (fits : (k : ℕ∞) ≤ shape.segment.rows)
    (source : contents = range' 0 (k + shape.entry))
    (enters : (shape.fill predicate).Enters (fun child inner => child.Returns contents inner)
      contents rows) :
    rows.Perm (range' shape.entry k) ∧ (shape.segment.ordered → rows = range' shape.entry k) := by
  induction shape with
  | leaf => exact ⟨source ▸ enters,nofun⟩
  | filter child ih => exact ih accepted kept.1 fits source enters
  | subqueryAlias child ih => exact ih accepted kept fits source enters
  | limit count offset child ih =>
    rw [Shape.segment, Segment.limitTo_rows] at fits
    rw [Shape.segment, Segment.limitTo_ordered]
    exact ih accepted.1 kept.1 fits source enters
  | sort child =>
    obtain ⟨inner,under,sorts⟩ := enters
    rw [source] at under
    have inside : child.Accepted := accepted
    have same := sorts.eq_range' (Shape.fill_returns inside kept positive fits under).1
    exact ⟨same ▸ Perm.refl _,fun _ => same⟩
  | topN count offset child =>
    obtain ⟨inner,under,sorts⟩ := enters
    rw [source] at under
    have same := sorts.eq_range' (Shape.fill_returns accepted.1 kept positive fits under).1
    exact ⟨same ▸ Perm.refl _,fun _ => same⟩
  | splitTopN count offset firstLimit firstOffset child =>
    obtain ⟨inner,under,first,⟨early,sortsEarly,rfl⟩,sorts⟩ := enters
    obtain ⟨within,deep⟩ := le_min_iff.mp fits
    rw [source, Shape.entry, Nat.add_comm child.skipped, ← Nat.add_assoc] at under
    have perm := (Shape.fill_returns accepted.1 kept (by omega) (cast_add_le positive deep) under).1
    rw [sortsEarly.eq_range' perm, window_range' _ _ _ _ within] at sorts
    have same := sorts.eq_range' (Perm.refl _)
    exact ⟨same ▸ Perm.refl _,fun _ => same⟩
  | project child =>
    obtain ⟨inner,under,rfl⟩ := enters
    rw [source] at under
    have inside : child.Accepted := accepted
    rw [map_id]
    exact Shape.fill_returns inside kept positive fits under

theorem Shape.fill_keep (shape : Shape) (predicate : Nat → Bool) :
    (shape.fill predicate).keep = if shape.segment.filtered then predicate else fun _ => true := by
  induction shape with
  | filter child ih =>
    simp only [Shape.fill, keep, ih, Shape.segment]
    cases child.segment.filtered <;> simp
  | limit count offset child ih =>
    rw [Shape.segment, Segment.limitTo_filtered]
    exact ih
  | subqueryAlias child ih => exact ih
  | _ => rfl

theorem Shape.fill_keep_all (shape : Shape) : (shape.fill fun _ => true).keep = fun _ => true := by
  rw [Shape.fill_keep]
  split <;> rfl

theorem Shape.fill_determined {k : Nat} (accepted : shape.Accepted) (kept : shape.LevelsKept)
    (ordered : shape.segment.ordered) (predicate : Nat → Bool) (positive : 0 < k)
    (fits : (k : ℕ∞) ≤ shape.segment.rows) :
    let contents := range' 0 (k + shape.entry)
    let rows := range' shape.entry k
    (shape.fill predicate).Enters (Generates contents) contents rows ∧
      ∀ out, (shape.fill predicate).Returns contents out → out = (shape.fill predicate).finish rows := by
  have alike := (Shape.fill_shape shape predicate).symm
  constructor
  · obtain ⟨rows,enters⟩ := exists_enters (alike ▸ accepted) (range' 0 (k + shape.entry))
    have entered := (enters.returns (alike ▸ accepted) (alike ▸ kept)).1
    exact (Shape.fill_enters accepted kept positive fits rfl entered).2 ordered ▸ enters
  · intro out returns
    obtain ⟨rows,enters,rfl⟩ := returns.enters (alike ▸ accepted) (alike ▸ kept) (alike ▸ ordered)
    rw [(Shape.fill_enters accepted kept positive fits rfl enters).2 ordered]

theorem Faithful.returns {contents rows : List Nat} {plan : PhysicalPlan Nat} (faithful : Faithful plan)
    (accepted : plan.shape.Accepted) (enters : plan.Enters (Generates contents) contents rows) :
    plan.Returns contents (plan.finish rows) := by
  obtain ⟨tree,made,sound⟩ := faithful
  obtain ⟨other,again,returned⟩ := enters.generates accepted
  have same : tree = other := Except.ok.inj (made.symm.trans again)
  exact (sound contents).2 _ (same ▸ returned)

section
variable {k : Nat}

variable (accepted : (Shape.limit limit offset shape).Accepted)

variable (kept : shape.LevelsKept)

include accepted kept in
theorem limit_agrees (ordered : shape.segment.ordered) (predicate : Nat → Bool)
    (faithful : Faithful (.limit limit offset (shape.fill predicate)))
    (positive : 0 < k) (fits : (k : ℕ∞) ≤ shape.segment.rows) :
    (shape.segment.limitTo limit offset).finish (shape.fill predicate).keep
        (range' shape.entry k) =
      window limit (offset.getD 0)
        (shape.segment.finish (shape.fill predicate).keep (range' shape.entry k)) := by
  obtain ⟨enters,only⟩ := Shape.fill_determined accepted.1 kept ordered predicate positive fits
  have alike := Shape.fill_shape shape predicate
  obtain ⟨rows,under,equal⟩ := faithful.returns (by rwa [PhysicalPlan.shape, alike]) enters
  rw [only rows under] at equal
  unfold finish at equal
  rw [PhysicalPlan.shape, alike] at equal
  exact equal

theorem filter_agrees (accepted : shape.Accepted) (kept : shape.LevelsKept)
    (ordered : shape.segment.ordered) (predicate : Nat → Bool)
    (faithful : Faithful (.filter predicate (shape.fill fun _ => true)))
    (positive : 0 < k) (fits : (k : ℕ∞) ≤ shape.segment.rows) :
    shape.segment.finish predicate (range' shape.entry k) =
      (shape.segment.finish (fun _ => true) (range' shape.entry k)).filter predicate := by
  obtain ⟨enters,only⟩ := Shape.fill_determined accepted kept ordered (fun _ => true) positive fits
  have alike := Shape.fill_shape shape fun _ => true
  obtain ⟨rows,under,equal⟩ := faithful.returns (by rwa [PhysicalPlan.shape, alike]) enters
  rw [only rows under] at equal
  unfold finish at equal
  rw [PhysicalPlan.shape, alike, keep, shape.fill_keep_all] at equal
  exact equal

/-! ### Numbers that tell the windows apart -/

theorem filter_first (start count : Nat) :
    (range' start (count + 1)).filter (fun row => decide (row ≠ start)) =
      range' (start + 1) count := by
  rw [range'_succ, filter_cons_of_neg (by simp)]
  apply filter_eq_self.mpr
  intro row member
  have above := (mem_range'_1.mp member).1
  exact decide_eq_true (by omega)

theorem succ_le_of_not_le {most : ℕ∞} {n : Nat} (more : ¬ most ≤ n) : ((n + 1 : Nat) : ℕ∞) ≤ most := by
  cases most with
  | top => exact le_top
  | coe most =>
    norm_cast at *
    omega

/-- With its first row rejected a full window is one row short, unless it may look further. -/
theorem full_window_differs (positive : 0 < n) :
    (window (some n) 0 (range' start (n + 1))).filter (fun row => decide (row ≠ start)) ≠
      window (some n) 0 ((range' start (n + 1)).filter fun row => decide (row ≠ start)) := by
  obtain ⟨m,rfl⟩ : ∃ m, n = m + 1 := ⟨n - 1,by omega⟩
  rw [filter_first]
  have cut : window (some (m + 1)) 0 (range' start (m + 1 + 1)) = range' start (m + 1) := by
    rw [window, drop_zero, range'_concat, take_left' (by simp)]
  rw [cut, filter_first, window_of_length_le (by simp)]
  intro same
  have lengths := congrArg length same
  simp at lengths

theorem allowsFilter_of_faithful (accepted : shape.Accepted) (kept : shape.LevelsKept)
    (faithful : ∀ predicate, Faithful (.filter predicate (shape.fill fun _ => true))) :
    shape.segment.AllowsFilter := by
  intro plain ordered n held
  by_contra wrong
  obtain ⟨nonzero,more⟩ := not_or.mp wrong
  have agrees := filter_agrees accepted kept ordered (fun row => decide (row ≠ shape.entry))
    (faithful _) (succ_pos n) (succ_le_of_not_le more)
  rw [Segment.finish_plain plain, Segment.finish_plain plain, held, filter_true] at agrees
  exact full_window_differs (Nat.pos_of_ne_zero nonzero) agrees.symm

include accepted kept in
theorem allowsLimit_plain (plain : shape.segment.head = .plain)
    (faithful : Faithful (.limit limit offset (shape.fill fun _ => true))) :
    ∀ m n, limit = some m → shape.segment.limit = some n → m ≤ n ∨ shape.segment.rows ≤ n := by
  intro m n count held
  by_contra wrong
  obtain ⟨less,more⟩ := not_or.mp wrong
  have alike := Shape.fill_shape shape fun _ => true
  have unplaced := accepted.placed (by simp [plain])
  have inner : (shape.fill fun _ => true).shape.Accepted := alike.symm ▸ accepted.1
  have whole : (PhysicalPlan.limit limit offset (shape.fill fun _ => true)).shape.Accepted := by
    rw [PhysicalPlan.shape, alike]
    exact accepted
  obtain ⟨rows,enters⟩ := exists_enters inner (range' 0 (n + 1 + shape.entry))
  have entered := (enters.returns inner (alike.symm ▸ kept)).1
  have size := (Shape.fill_enters accepted.1 kept (succ_pos n) (succ_le_of_not_le more) rfl
    entered).1.length_eq
  rw [length_range'] at size
  obtain ⟨returned,under,equal⟩ := faithful.returns whole enters
  have few := under.length_le
  rw [alike, Segment.most, held] at few
  have short : returned.length ≤ n := cast_le.mp (few.trans (min_le_left _ _))
  have made : (PhysicalPlan.limit limit offset (shape.fill fun _ => true)).finish rows =
      window (some m) 0 rows := by
    rw [finish, PhysicalPlan.shape, alike, Shape.segment,
      Segment.finish_limitTo_plain plain, keep,
      shape.fill_keep_all, filter_true, count]
    rfl
  have lengths := congrArg length (made.symm.trans equal)
  rw [count, unplaced] at lengths
  simp only [window, length_take, length_drop] at lengths
  omega

/-- The second of two windows on the numbers leaves what it leaves of all of them: the first skips
none, and reaches as far. -/
theorem windows_agree {inner : Option Nat} {skip place start : Nat}
    (agrees : window limit place (range' start k) =
      window limit place (window inner skip (range' start k)))
    (some' : limit ≠ some 0) (past : place < k) :
    (k = place + 1 → skip = 0) ∧ (skip = 0 → (k : ℕ∞) ≤ place + bound limit → (k : ℕ∞) ≤ bound inner) := by
  have lengths := congrArg length agrees
  have positive : ∀ m, limit = some m → m ≠ 0 := by
    rintro m rfl rfl
    exact some' rfl
  have far : ∀ m, limit = some m → (k : ℕ∞) ≤ place + bound limit → k ≤ place + m := by
    rintro m rfl fits
    change (k : ℕ∞) ≤ (place : ℕ∞) + (m : ℕ∞) at fits
    exact_mod_cast fits
  rcases limit with _ | m <;> rcases inner with _ | n <;>
    simp only [window, length_take, length_drop, length_range'] at lengths
  · exact ⟨by omega,fun _ _ => le_top⟩
  · exact ⟨by omega,fun _ _ => le_bound_some.mpr (by omega)⟩
  · have := positive m rfl
    exact ⟨by omega,fun _ _ => le_top⟩
  · have := positive m rfl
    refine ⟨by omega,fun _ fits => le_bound_some.mpr ?_⟩
    have within := far m rfl fits
    omega

theorem ordered_of_windowed (windowed : shape.segment.head ≠ .plain) : shape.segment.ordered = true := by
  by_contra unordered
  exact windowed (Shape.plain_of_unordered (Bool.not_eq_true _ ▸ unordered))

include accepted kept in
theorem allowsLimit_sort (kind : shape.segment.head = .sort useTopN)
    (faithful : ∀ predicate, Faithful (.limit limit offset (shape.fill predicate))) :
    limit = some 0 ∨ shape.segment.rows ≤ (offset.getD 0 : Nat) ∨ (shape.segment.offset = 0 ∧
        min ((offset.getD 0 : Nat) + bound limit) shape.segment.rows ≤ bound shape.segment.limit ∧
        (shape.segment.filtered → offset.getD 0 = 0 ∧
          min (bound shape.segment.limit) shape.segment.rows ≤ bound limit)) := by
  have ordered : shape.segment.ordered = true := ordered_of_windowed (by simp [kind])
  have agrees : ∀ (predicate : Nat → Bool) (k : Nat), 0 < k → (k : ℕ∞) ≤ shape.segment.rows →
      (window limit (offset.getD 0) (range' shape.entry k)).filter
          (shape.fill predicate).keep =
        window limit (offset.getD 0) ((window shape.segment.limit shape.segment.offset
          (range' shape.entry k)).filter (shape.fill predicate).keep) := by
    intro predicate k positive fits
    have both := limit_agrees accepted kept ordered predicate (faithful predicate) positive fits
    rw [Segment.finish_limitTo_sort kind, Segment.finish_windowed (by simp [kind])] at both
    exact both
  have free : ∀ k : Nat, 0 < k → (k : ℕ∞) ≤ shape.segment.rows →
      window limit (offset.getD 0) (range' shape.entry k) =
        window limit (offset.getD 0) (window shape.segment.limit shape.segment.offset
          (range' shape.entry k)) := by
    intro k positive fits
    have both := agrees (fun _ => true) k positive fits
    rw [shape.fill_keep_all, filter_true, filter_true] at both
    exact both
  by_cases zero : limit = some 0
  · exact .inl zero
  by_cases beyond : shape.segment.rows ≤ (offset.getD 0 : Nat)
  · exact .inr (.inl beyond)
  have room := succ_le_of_not_le beyond
  have next := windows_agree (free (offset.getD 0 + 1) (by omega) room) zero (by omega)
  have start := next.1 rfl
  have one : ((1 : Nat) : ℕ∞) ≤ bound limit := by
    cases limit with
    | none => exact le_top
    | some m => exact le_bound_some.mpr (Nat.pos_of_ne_zero fun none' => zero (congrArg some none'))
  have whole : ((offset.getD 0 + 1 : Nat) : ℕ∞) ≤ bound shape.segment.limit := by
    apply next.2 start
    rw [Nat.add_comm]
    exact min_of_sum one
  have reach : min ((offset.getD 0 : Nat) + bound limit) shape.segment.rows ≤
      bound shape.segment.limit := by
    apply ENat.forall_natCast_le_iff_le.mp
    intro k fits
    obtain ⟨far,inside⟩ := le_min_iff.mp fits
    by_cases past : offset.getD 0 < k
    · exact (windows_agree (free k (by omega) inside) zero past).2 start far
    · exact (cast_le.mpr (by omega)).trans whole
  refine .inr (.inr ⟨start,reach,fun filtered => ?_⟩)
  have rejects : ∀ predicate, (shape.fill predicate).keep = predicate := by
    intro predicate
    rw [Shape.fill_keep, if_pos filtered]
  have full := window_range' shape.segment.limit 0 shape.entry
  have unplaced : offset.getD 0 = 0 := by
    -- the first number is rejected: skipped after the filter, or filtered after the skip
    by_contra placed
    have differs := agrees (fun row => decide (row ≠ shape.entry)) (offset.getD 0 + 1) (by omega) room
    have last : window limit (offset.getD 0) (range' shape.entry (offset.getD 0 + 1)) =
        range' (shape.entry + offset.getD 0) 1 := by
      rw [Nat.add_comm (offset.getD 0) 1]
      exact window_range' _ _ _ _ one
    have nothing : window limit (offset.getD 0) (range' (shape.entry + 1) (offset.getD 0)) = [] :=
      window_of_skipped (by rw [length_range'])
    rw [rejects, start, full _ whole, Nat.add_zero shape.entry, filter_first, nothing, last] at differs
    have gone := filter_eq_nil_iff.mp differs (shape.entry + offset.getD 0) (by simp)
    simp only [decide_eq_true_eq] at gone
    omega
  refine ⟨unplaced,ENat.forall_natCast_le_iff_le.mp fun k fits => ?_⟩
  obtain ⟨held,inside⟩ := le_min_iff.mp fits
  cases limit with
  | none => exact le_top
  | some m =>
    by_contra more
    have less : m < k := Nat.lt_of_not_le fun few => more (le_bound_some.mpr few)
    have below : ((m + 1 : Nat) : ℕ∞) ≤ k := cast_le.mpr less
    have differs := agrees (fun row => decide (row ≠ shape.entry)) (m + 1) (succ_pos _) (below.trans inside)
    rw [rejects, start, unplaced, full _ (below.trans held)] at differs
    exact full_window_differs (Nat.pos_of_ne_zero fun none' => zero (congrArg some none')) differs

include accepted kept in
theorem allowsLimit_exchange (kind : shape.segment.head = .exchange)
    (faithful : ∀ predicate, Faithful (.limit limit offset (shape.fill predicate))) :
    ∀ m, limit = some m →
      min (m : ℕ∞) (shape.segment.rows - shape.segment.offset) ≤ bound shape.segment.limit ∧
      (shape.segment.filtered → m = 0 ∨
        min (bound shape.segment.limit) (shape.segment.rows - shape.segment.offset) ≤ m) := by
  rintro m rfl
  have ordered : shape.segment.ordered = true := ordered_of_windowed (by simp [kind])
  have unplaced := accepted.placed (by simp [kind])
  subst unplaced
  have agrees : ∀ (predicate : Nat → Bool) (k : Nat), 0 < k →
      (k : ℕ∞) ≤ shape.segment.rows - shape.segment.offset →
      (window (some m) 0 (range' (shape.entry + shape.segment.offset) k)).filter
          (shape.fill predicate).keep =
        window (some m) 0 ((window shape.segment.limit 0
          (range' (shape.entry + shape.segment.offset) k)).filter (shape.fill predicate).keep) := by
    intro predicate k positive fits
    have both := limit_agrees accepted kept ordered predicate (faithful predicate) (by omega)
      (cast_add_le positive fits)
    have skip : (range' shape.entry (k + shape.segment.offset)).drop shape.segment.offset =
        range' (shape.entry + shape.segment.offset) k := window_range' none _ _ _ le_bound_none
    rw [Segment.finish_limitTo_exchange kind, Segment.finish_windowed (by simp [kind]),
      window_drop (Option.or _ _), window_drop shape.segment.limit, skip] at both
    exact both
  constructor
  · apply ENat.forall_natCast_le_iff_le.mp
    intro k fits
    obtain ⟨inside,left⟩ := le_min_iff.mp fits
    by_cases positive : 0 < k
    · have both := agrees (fun _ => true) k positive left
      rw [shape.fill_keep_all, filter_true, filter_true] at both
      have far : (k : ℕ∞) ≤ (0 : Nat) + bound (some m) := by
        rw [cast_zero, zero_add]
        exact inside
      by_cases none' : m = 0
      · have few : k ≤ m := cast_le.mp inside
        omega
      · exact (windows_agree both (fun zero => none' (Option.some.inj zero)) positive).2 rfl far
    · have zero : k = 0 := by omega
      rw [zero, cast_zero]
      exact zero_le
  · intro filtered
    by_cases none' : m = 0
    · exact .inl none'
    refine .inr (ENat.forall_natCast_le_iff_le.mp fun k fits => ?_)
    obtain ⟨held,left⟩ := le_min_iff.mp fits
    by_contra more
    have less : m < k := Nat.lt_of_not_le fun few => more (cast_le.mpr few)
    have below : ((m + 1 : Nat) : ℕ∞) ≤ k := cast_le.mpr less
    have differs := agrees (fun row => decide (row ≠ shape.entry + shape.segment.offset)) (m + 1)
      (succ_pos _) (below.trans left)
    have full := window_range' _ 0 (shape.entry + shape.segment.offset) _ (below.trans held)
    rw [Shape.fill_keep, if_pos filtered, full] at differs
    exact full_window_differs (Nat.pos_of_ne_zero none') differs

include accepted kept in
theorem allowsLimit_of_faithful
    (faithful : ∀ predicate, Faithful (.limit limit offset (shape.fill predicate))) :
    shape.segment.AllowsLimit limit offset := by
  unfold Segment.AllowsLimit
  cases kind : shape.segment.head with
  | plain => exact allowsLimit_plain accepted kept kind (faithful _)
  | sort useTopN => exact allowsLimit_sort accepted kept kind faithful
  | exchange => exact allowsLimit_exchange accepted kept kind faithful

end

/-! ### The whole stack -/

theorem Shape.levels_kept {plan : PhysicalPlan α} (accepted : plan.shape.Accepted)
    (kept : plan.shape.LevelsKept) :
    ∀ level ∈ plan.levels, level.shape.Accepted ∧ level.shape.LevelsKept := by
  induction plan with
  | leaf => exact forall_mem_singleton.mpr ⟨accepted,kept⟩
  | filter _ _ ih => exact forall_mem_cons.mpr ⟨⟨accepted,kept⟩,ih accepted kept.1⟩
  | limit _ _ _ ih => exact forall_mem_cons.mpr ⟨⟨accepted,kept⟩,ih accepted.1 kept.1⟩
  | sort _ _ ih | project _ _ ih | subqueryAlias _ ih =>
    exact forall_mem_cons.mpr ⟨⟨accepted,kept⟩,ih accepted kept⟩
  | topN _ _ _ _ ih | splitTopN _ _ _ _ _ _ ih =>
    exact forall_mem_cons.mpr ⟨⟨accepted,kept⟩,ih accepted.1 kept⟩

def Shape.FaithfulNumbers (shape : Shape) : Prop :=
  ∀ plan : PhysicalPlan Nat, plan.shape = shape → ∀ level ∈ plan.levels, Faithful level

theorem Shape.FaithfulNumbers.accepted (faithful : shape.FaithfulNumbers) : shape.Accepted := by
  have alike := shape.fill_shape fun _ => true
  rw [← alike]
  apply accepted_of_generated
  intro level inside
  obtain ⟨tree,made,_⟩ := faithful _ alike level inside
  exact ⟨tree,made⟩

theorem Shape.FaithfulNumbers.below (faithful : shape.FaithfulNumbers)
    (above : PhysicalPlan Nat → PhysicalPlan Nat)
    (alike : ∀ plan, plan.shape = child → (above plan).shape = shape)
    (inside : ∀ plan : PhysicalPlan Nat, ∀ level ∈ plan.levels, level ∈ (above plan).levels) :
    child.FaithfulNumbers :=
  fun plan same level member => faithful (above plan) (alike plan same) level (inside plan level member)

theorem Shape.FaithfulNumbers.kept (faithful : shape.FaithfulNumbers) : shape.LevelsKept := by
  induction shape with
  | leaf => trivial
  | filter child ih =>
    have below : child.FaithfulNumbers := faithful.below (.filter fun _ => true)
      (fun plan same => congrArg Shape.filter same) (fun _ _ => mem_cons_of_mem _)
    refine ⟨ih below,allowsFilter_of_faithful below.accepted (ih below) fun predicate => ?_⟩
    exact faithful (.filter predicate (child.fill fun _ => true))
      (congrArg Shape.filter (child.fill_shape _)) _ mem_cons_self
  | limit count offset child ih =>
    have below : child.FaithfulNumbers := faithful.below (.limit count offset)
      (fun plan same => congrArg (Shape.limit count offset) same) (fun _ _ => mem_cons_of_mem _)
    refine ⟨ih below,allowsLimit_of_faithful faithful.accepted (ih below) fun predicate => ?_⟩
    exact faithful (.limit count offset (child.fill predicate))
      (congrArg (Shape.limit count offset) (child.fill_shape _)) _ mem_cons_self
  | sort child ih =>
    exact ih (faithful.below (.sort .nat) (fun plan same => congrArg Shape.sort same)
      fun _ _ => mem_cons_of_mem _)
  | topN count offset child ih =>
    exact ih (faithful.below (.topN .nat count offset)
      (fun plan same => congrArg (Shape.topN count offset) same) fun _ _ => mem_cons_of_mem _)
  | splitTopN count offset firstLimit firstOffset child ih =>
    exact ih (faithful.below (.splitTopN .nat count offset firstLimit firstOffset)
      (fun plan same => congrArg (Shape.splitTopN count offset firstLimit firstOffset) same)
      fun _ _ => mem_cons_of_mem _)
  | project child ih =>
    exact ih (faithful.below (.project id) (fun plan same => congrArg Shape.project same)
      fun _ _ => mem_cons_of_mem _)
  | subqueryAlias child ih =>
    exact ih (faithful.below .subqueryAlias (fun plan same => congrArg Shape.subqueryAlias same)
      fun _ _ => mem_cons_of_mem _)

/-- The trees generated for the stacks of a shape, whatever their predicates, keys and expressions,
are faithful at every level exactly if the shape is accepted and keeps its levels. -/
theorem stacks_faithful_iff (shape : Shape) :
    (∀ (α : Type) (plan : PhysicalPlan α), plan.shape = shape → ∀ level ∈ plan.levels, Faithful level) ↔
      shape.Accepted ∧ shape.LevelsKept := by
  constructor
  · intro faithful
    have numbers : shape.FaithfulNumbers := faithful Nat
    exact ⟨numbers.accepted,numbers.kept⟩
  · rintro ⟨accepted,kept⟩ α plan rfl level inside
    obtain ⟨above,below⟩ := Shape.levels_kept accepted kept _ inside
    exact faithful_of_kept above below

/-- `(SELECT n FROM t ORDER BY n LIMIT 2 OFFSET 1) LIMIT 1`, with or without an alias around the
parentheses: the alias emits no plan node. -/
def secondBest : PhysicalPlan Nat :=
  .limit (some 1) none (.subqueryAlias (.topN .nat (some 2) (some 1) .leaf))

/-- The outer limit takes the place of the inner limit and of its offset: the first row comes out,
which the inner query skips. -/
theorem outer_limit_drops_offset :
    ∃ tree, generate secondBest = .ok tree ∧ tree.Returns [1, 2, 3] [1] ∧
      ¬ secondBest.Returns [1, 2, 3] [1] := by
  refine ⟨.sort .nat (some 1) 0 (.scan []),rfl,?_,?_⟩
  · exact ⟨[1, 2, 3],⟨[1, 2, 3],Perm.refl _,rfl⟩,[1, 2, 3],⟨Perm.refl _,by decide⟩,rfl⟩
  · rintro ⟨_,⟨rows,perm,sorted,sorts,rfl⟩,equal⟩
    have only : sorted = List.range' 1 3 := sorts.eq_range' perm
    rw [only] at equal
    exact absurd equal (by decide)

end NovaRocks.Codegen
