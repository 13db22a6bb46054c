import NovaRocks.Codegen.StackSegments

/-!
When the tree generated for a stack returns what the stack's operators, evaluated one
after another, may return. One window for all the limits of a segment, and one place
for all its filters, is right exactly where what is replaced or moved does not show:
the condition is read off from the segment below each filter and each limit.
-/
namespace NovaRocks.Codegen
open Relational
open List hiding min

/-- A filter is applied before the limit of a node that is no sort: no harm where the rows come
in no fixed order, or where the limit leaves no row or every row. -/
def Segment.AllowsFilter (segment : Segment) : Prop :=
  segment.head = .plain → segment.ordered → ∀ n, segment.limit = some n → n = 0 ∨ segment.rows ≤ n

/-- A limit takes the place of the segment's limit, in a sort that of its offset too and below the
segment's filters: no harm where the two windows come to the same. -/
def Segment.AllowsLimit (segment : Segment) (limit offset : Option Nat) : Prop :=
  match segment.head with
  | .plain => ∀ m n, limit = some m → segment.limit = some n → m ≤ n ∨ segment.rows ≤ n
  | .sort _ => limit = some 0 ∨ segment.rows ≤ (offset.getD 0 : Nat) ∨
    (segment.offset = 0 ∧
      min ((offset.getD 0 : Nat) + bound limit) segment.rows ≤ bound segment.limit ∧
      (segment.filtered → offset.getD 0 = 0 ∧ min (bound segment.limit) segment.rows ≤ bound limit))
  | .exchange => ∀ m, limit = some m →
    min (m : ℕ∞) (segment.rows - segment.offset) ≤ bound segment.limit ∧
    (segment.filtered → m = 0 ∨ min (bound segment.limit) (segment.rows - segment.offset) ≤ m)

/-- No filter and no limit of the stack is moved or replaced with effect. -/
def Shape.LevelsKept : Shape → Prop
  | .leaf => True
  | .filter child => child.LevelsKept ∧ child.segment.AllowsFilter
  | .limit count offset child => child.LevelsKept ∧ child.segment.AllowsLimit count offset
  | .sort child => child.LevelsKept
  | .topN _ _ child => child.LevelsKept
  | .splitTopN _ _ _ _ child => child.LevelsKept
  | .project child => child.LevelsKept
  | .subqueryAlias child => child.LevelsKept

/-- A tree is generated, it returns something, and only what the operators may return. -/
def Faithful (plan : PhysicalPlan α) : Prop :=
  ∃ tree, generate plan = .ok tree ∧ ∀ contents, (∃ out, tree.Returns contents out) ∧
    ∀ out, tree.Returns contents out → plan.Returns contents out

/-! ### A segment and the operator above it -/

section
variable {segment : Segment} {limit offset : Option Nat} {rows : List α}

theorem Segment.finish_plain (plain : segment.head = .plain) :
    segment.finish keep rows = window segment.limit 0 (rows.filter keep) := by
  rw [Segment.finish, plain]

theorem Segment.finish_windowed (windowed : segment.head ≠ .plain) :
    segment.finish keep rows = (window segment.limit segment.offset rows).filter keep := by
  unfold Segment.finish
  split
  case h_1 plain => exact absurd plain windowed
  case h_2 => rfl

theorem Segment.finish_limitTo_plain (plain : segment.head = .plain) :
    (segment.limitTo limit offset).finish keep rows =
      window (limit.or segment.limit) 0 (rows.filter keep) := by
  simp only [Segment.limitTo, Segment.finish, plain]

theorem Segment.finish_limitTo_sort (kind : segment.head = .sort useTopN) :
    (segment.limitTo limit offset).finish keep rows = (window limit (offset.getD 0) rows).filter keep := by
  simp only [Segment.limitTo, Segment.finish, kind]

theorem Segment.finish_limitTo_exchange (kind : segment.head = .exchange) :
    (segment.limitTo limit offset).finish keep rows =
      (window (limit.or segment.limit) segment.offset rows).filter keep := by
  simp only [Segment.limitTo, Segment.finish, kind]

theorem Segment.finish_limit (allows : segment.AllowsLimit limit offset)
    (placed : (∀ useTopN, segment.head ≠ .sort useTopN) → offset = none)
    (unfiltered : segment.filtered = false → keep = fun _ => true)
    (short : (rows.length : ℕ∞) ≤ segment.rows) :
    (segment.limitTo limit offset).finish keep rows =
      window limit (offset.getD 0) (segment.finish keep rows) := by
  unfold Segment.AllowsLimit at allows
  cases kind : segment.head with
  | plain =>
    rw [kind] at allows
    have noSort : ∀ useTopN, segment.head ≠ .sort useTopN := by simp [kind]
    rw [Segment.finish_limitTo_plain kind, Segment.finish_plain kind, placed noSort]
    cases limit with
    | none => rfl
    | some m =>
      symm
      apply window_window
      cases held : segment.limit with
      | none => exact le_top
      | some n =>
        rcases allows m n rfl held with less | few
        · exact (min_le_left _ _).trans (Nat.cast_le.mpr less)
        · have length : ((rows.filter keep).length : ℕ∞) ≤ rows.length :=
            Nat.cast_le.mpr (length_filter_le _ _)
          exact (min_le_right _ _).trans (length.trans (short.trans few))
  | sort useTopN =>
    rw [kind] at allows
    rw [Segment.finish_limitTo_sort kind, Segment.finish_windowed (by simp [kind])]
    rcases allows with none' | beyond | ⟨start,reach,between⟩
    · rw [none']
      simp [window]
    · have past : rows.length ≤ offset.getD 0 := Nat.cast_le.mp (short.trans beyond)
      have fewer : ((window segment.limit segment.offset rows).filter keep).length ≤ rows.length := by
        refine (length_filter_le _ _).trans ?_
        cases segment.limit <;> simp [window]
      rw [window_of_skipped past, window_of_skipped (fewer.trans past)]
      rfl
    · have near := (min_le_min_left _ short).trans reach
      rw [start]
      cases filtered : segment.filtered with
      | false =>
        rw [unfiltered filtered, filter_true, filter_true, window_window_offset near]
      | true =>
        obtain ⟨zero,back⟩ := between filtered
        rw [zero] at near ⊢
        rw [Nat.cast_zero, zero_add] at near
        exact filter_window near ((min_le_min_left _ short).trans back)
  | exchange =>
    rw [kind] at allows
    have noSort : ∀ useTopN, segment.head ≠ .sort useTopN := by simp [kind]
    rw [Segment.finish_limitTo_exchange kind, Segment.finish_windowed (by simp [kind]), placed noSort]
    cases limit with
    | none => rfl
    | some m =>
      obtain ⟨reach,between⟩ := allows m rfl
      have left : ((rows.drop segment.offset).length : ℕ∞) ≤ segment.rows - segment.offset := by
        rw [length_drop, ENat.natCast_sub]
        exact tsub_le_tsub_right short _
      have near : min (bound (some m)) (rows.drop segment.offset).length ≤ bound segment.limit :=
        (min_le_min_left _ left).trans reach
      cases filtered : segment.filtered with
      | false =>
        rw [unfiltered filtered, filter_true, filter_true]
        exact (window_window near).symm
      | true =>
        rcases between filtered with rfl | back
        · simp [window]
        · exact filter_window near ((min_le_min_left _ left).trans back)

theorem Segment.finish_filter (allows : segment.AllowsFilter)
    (ordered : segment.ordered) (short : (rows.length : ℕ∞) ≤ segment.rows) :
    segment.finish (fun row => keep row && predicate row) rows =
      (segment.finish keep rows).filter predicate := by
  have both : ∀ part : List α, part.filter (fun row => keep row && predicate row) =
      (part.filter keep).filter predicate := by
    intro part
    rw [filter_filter]
    congr 1
    funext row
    exact Bool.and_comm _ _
  by_cases plain : segment.head = .plain
  · rw [Segment.finish_plain plain, Segment.finish_plain plain, both]
    cases held : segment.limit with
    | none => rfl
    | some n =>
      rcases allows plain ordered n held with rfl | few
      · simp [window]
      · have length : rows.length ≤ n := Nat.cast_le.mp (short.trans few)
        have kept : (rows.filter keep).length ≤ n := (length_filter_le _ _).trans length
        rw [window_of_length_le kept]
        exact window_of_length_le ((length_filter_le _ _).trans kept)
  · rw [Segment.finish_windowed plain, Segment.finish_windowed plain, both]

end

/-! ### What the segment of a plan says -/

section
variable {plan : PhysicalPlan α} {contents rows out : List α}

section
variable (segment : Segment)

section
variable (limit offset : Option Nat)

@[simp] theorem Segment.limitTo_head : (segment.limitTo limit offset).head = segment.head := by
  unfold Segment.limitTo
  split <;> rfl

@[simp] theorem Segment.limitTo_filtered : (segment.limitTo limit offset).filtered = segment.filtered := by
  unfold Segment.limitTo
  split <;> rfl

@[simp] theorem Segment.limitTo_rows : (segment.limitTo limit offset).rows = segment.rows := by
  unfold Segment.limitTo
  split <;> rfl

@[simp] theorem Segment.limitTo_ordered : (segment.limitTo limit offset).ordered = segment.ordered := by
  unfold Segment.limitTo
  split <;> rfl

end

theorem Shape.plain_of_unordered {shape : Shape} (unordered : shape.segment.ordered = false) :
    shape.segment.head = .plain := by
  induction shape with
  | leaf | project => rfl
  | filter _ ih | subqueryAlias _ ih => exact ih unordered
  | limit count offset child ih =>
    rw [Shape.segment, Segment.limitTo_ordered] at unordered
    rw [Shape.segment, Segment.limitTo_head]
    exact ih unordered
  | _ => cases unordered

theorem PhysicalPlan.keep_unfiltered (unfiltered : plan.shape.segment.filtered = false) :
    plan.keep = fun _ => true := by
  induction plan with
  | filter predicate child => cases unfiltered
  | subqueryAlias child ih => exact ih unfiltered
  | limit count offset child ih =>
    rw [PhysicalPlan.shape, Shape.segment, Segment.limitTo_filtered] at unfiltered
    exact ih unfiltered
  | _ => rfl

theorem Segment.most_limitTo (limit offset : Option Nat) :
    min (bound limit) (segment.most - (offset.getD 0 : Nat)) ≤ (segment.limitTo limit offset).most := by
  by_cases kind : ∃ useTopN, segment.head = .sort useTopN
  · obtain ⟨useTopN,kind⟩ := kind
    rw [Segment.limitTo_sort kind]
    refine min_le_min_left _ (tsub_le_tsub_right ?_ _)
    exact (min_le_right _ _).trans tsub_le_self
  · rw [Segment.limitTo_other (not_exists.mp kind)]
    cases limit with
    | none => exact (min_le_right _ _).trans tsub_le_self
    | some m => exact min_le_min_left _ (tsub_le_self.trans (min_le_right _ _))

end

theorem SortWindow.length_le
    (windows : SortWindow items limit offset rows out) (short : (rows.length : ℕ∞) ≤ most) :
    (out.length : ℕ∞) ≤ min (bound limit) (most - offset) := by
  obtain ⟨sorted,sorts,rfl⟩ := windows
  exact length_window_le _ _ (sorts.length_le short)

theorem PhysicalPlan.Enters.length_le {below : PhysicalPlan α → List α → Prop}
    (short : ∀ child inner, below child inner → (inner.length : ℕ∞) ≤ child.shape.segment.most)
    (enters : plan.Enters below contents rows) : (rows.length : ℕ∞) ≤ plan.shape.segment.rows := by
  induction plan with
  | leaf => exact le_top
  | filter _ _ ih | subqueryAlias _ ih => exact ih enters
  | limit count offset child ih =>
    rw [PhysicalPlan.shape, Shape.segment, Segment.limitTo_rows]
    exact ih enters
  | sort _ child | topN _ _ _ child =>
    obtain ⟨inner,under,sorts⟩ := enters
    exact sorts.length_le (short child inner under)
  | splitTopN items count offset firstLimit firstOffset child =>
    obtain ⟨inner,under,first,windows,sorts⟩ := enters
    exact sorts.length_le (windows.length_le (short child inner under))
  | project items child =>
    obtain ⟨inner,under,rfl⟩ := enters
    rw [length_map]
    exact short child inner under

theorem PhysicalPlan.Returns.length_le (returns : plan.Returns contents out) :
    (out.length : ℕ∞) ≤ plan.shape.segment.most := by
  induction plan generalizing out with
  | leaf => simp [PhysicalPlan.shape, Shape.segment, Segment.most]
  | filter predicate child ih =>
    obtain ⟨rows,under,rfl⟩ := returns
    exact (Nat.cast_le.mpr (length_filter_le _ _)).trans (ih under)
  | limit count offset child ih =>
    obtain ⟨rows,under,rfl⟩ := returns
    exact (length_window_le _ _ (ih under)).trans (Segment.most_limitTo _ _ _)
  | sort _ _ ih | topN _ _ _ _ ih =>
    obtain ⟨rows,under,windows⟩ := returns
    exact windows.length_le (ih under)
  | splitTopN items count offset firstLimit firstOffset child ih =>
    obtain ⟨rows,under,first,windows,last⟩ := returns
    exact last.length_le (windows.length_le (ih under))
  | project items child ih =>
    obtain ⟨rows,under,rfl⟩ := returns
    simpa [PhysicalPlan.shape, Shape.segment, Segment.most] using ih under
  | subqueryAlias child ih => exact ih returns

end

/-! ### Kept levels suffice -/

section
variable {plan : PhysicalPlan α} {contents rows out other : List α}

theorem PhysicalPlan.Enters.perm (accepted : plan.shape.Accepted)
    (unordered : plan.shape.segment.ordered = false)
    (enters : plan.Enters (Generates contents) contents rows) (perm : other.Perm rows) :
    plan.Enters (Generates contents) contents other := by
  induction plan generalizing rows other with
  | leaf => exact perm.trans enters
  | filter _ _ ih | subqueryAlias _ ih => exact ih accepted unordered enters perm
  | limit count offset child ih =>
    rw [PhysicalPlan.shape, Shape.segment, Segment.limitTo_ordered] at unordered
    exact ih accepted.1 unordered enters perm
  | project items child ih =>
    have inside : child.shape.Accepted := accepted
    have loose : child.shape.segment.ordered = false := unordered
    obtain ⟨inner,under,rfl⟩ := enters
    obtain ⟨swapped,same,rfl⟩ := exists_perm_map perm
    obtain ⟨below,entered,rfl⟩ := (generates_accepted inside contents inner).mp under
    have plain := Shape.plain_of_unordered loose
    rw [PhysicalPlan.finish, Segment.finish_plain plain] at same
    obtain ⟨again,moved,equal⟩ := exists_perm_window_filter same
    refine ⟨swapped,(generates_accepted inside contents swapped).mpr ⟨again,?_,?_⟩,rfl⟩
    · exact ih accepted unordered entered moved
    · rw [PhysicalPlan.finish, Segment.finish_plain plain, equal]
  | _ => cases unordered

theorem PhysicalPlan.Enters.generates (enters : plan.Enters (Generates contents) contents rows)
    (accepted : plan.shape.Accepted) : Generates contents plan (plan.finish rows) :=
  (generates_accepted accepted contents _).mpr ⟨rows,enters,rfl⟩

theorem PhysicalPlan.exists_enters (accepted : plan.shape.Accepted) (contents : List α) :
    ∃ rows, plan.Enters (Generates contents) contents rows := by
  have sortable : ∀ (items : SortOrder α) (inner : List α),
      ∃ sorted, Sorts (fun a b => items.le a b) inner sorted := by
    intro items inner
    exact Sorts.exists_of_total items.total items.trans inner
  induction plan with
  | leaf => exact ⟨contents,Perm.refl _⟩
  | filter _ _ ih | subqueryAlias _ ih => exact ih accepted
  | limit count offset child ih => exact ih accepted.1
  | sort items child ih =>
    obtain ⟨below,entered⟩ := ih accepted
    obtain ⟨sorted,sorts⟩ := sortable items (child.finish below)
    exact ⟨sorted,_,entered.generates accepted,sorts⟩
  | topN items count offset child ih =>
    obtain ⟨below,entered⟩ := ih accepted.1
    obtain ⟨sorted,sorts⟩ := sortable items (child.finish below)
    exact ⟨sorted,_,entered.generates accepted.1,sorts⟩
  | splitTopN items count offset firstLimit firstOffset child ih =>
    obtain ⟨below,entered⟩ := ih accepted.1
    obtain ⟨sorted,sorts⟩ := sortable items (child.finish below)
    obtain ⟨merged,merges⟩ := sortable items (window firstLimit (firstOffset.getD 0) sorted)
    exact ⟨merged,_,entered.generates accepted.1,_,⟨sorted,sorts,rfl⟩,merges⟩
  | project items child ih =>
    obtain ⟨below,entered⟩ := ih accepted
    exact ⟨_,_,entered.generates accepted,rfl⟩

theorem Shape.Accepted.placed {limit offset : Option Nat}
    (accepted : (Shape.limit limit offset child).Accepted)
    (noSort : ∀ useTopN, child.segment.head ≠ .sort useTopN) : offset = none := by
  have above := accepted.2
  split at above
  case h_1 useTopN kind => exact absurd kind (noSort useTopN)
  case h_2 => exact above

theorem PhysicalPlan.finish_limit {limit offset : Option Nat}
    (accepted : (Shape.limit limit offset child.shape).Accepted)
    (allows : child.shape.segment.AllowsLimit limit offset)
    (short : (rows.length : ℕ∞) ≤ child.shape.segment.rows) :
    (PhysicalPlan.limit limit offset child).finish rows =
      window limit (offset.getD 0) (child.finish rows) := by
  exact Segment.finish_limit allows accepted.placed PhysicalPlan.keep_unfiltered short

open PhysicalPlan (finish finish_limit)

/-- The rows that enter a generated segment may enter it in the operators' reading as well, and what
it makes of them the operators may return. -/
theorem PhysicalPlan.Enters.returns (accepted : plan.shape.Accepted) (kept : plan.shape.LevelsKept)
    (enters : plan.Enters (Generates contents) contents rows) :
    plan.Enters (fun child inner => child.Returns contents inner) contents rows ∧
      plan.Returns contents (plan.finish rows) := by
  induction plan generalizing rows with
  | leaf =>
    refine ⟨enters,?_⟩
    rw [finish, Segment.finish_plain rfl]
    exact (filter_true rows).symm ▸ enters
  | filter predicate child ih =>
    have inside : child.shape.Accepted := accepted
    obtain ⟨entered,returned⟩ := ih accepted kept.1 enters
    refine ⟨entered,?_⟩
    cases ordered : child.shape.segment.ordered with
    | true =>
      have short := entered.length_le fun _ _ => PhysicalPlan.Returns.length_le
      exact ⟨_,returned,Segment.finish_filter kept.2 ordered short⟩
    | false =>
      -- the rows that pass may as well have come first
      have plain := Shape.plain_of_unordered ordered
      obtain ⟨swapped,perm,equal⟩ :=
        exists_perm_filter_window child.shape.segment.limit child.keep predicate rows
      refine ⟨child.finish swapped,(ih accepted kept.1 (enters.perm inside ordered perm)).2,?_⟩
      have above : (PhysicalPlan.filter predicate child).shape.segment.head = .plain := plain
      rw [finish, finish, Segment.finish_plain plain,
        Segment.finish_plain above, equal]
      rfl
  | limit count offset child ih =>
    obtain ⟨entered,returned⟩ := ih accepted.1 kept.1 enters
    have short := entered.length_le fun _ _ => PhysicalPlan.Returns.length_le
    exact ⟨entered,_,returned,finish_limit accepted kept.2 short⟩
  | subqueryAlias child ih => exact ih accepted kept enters
  | sort items child ih =>
    obtain ⟨inner,under,sorts⟩ := enters
    have inside : child.shape.Accepted := accepted
    obtain ⟨below,entered,rfl⟩ := (generates_accepted inside contents inner).mp under
    have returned := (ih accepted kept entered).2
    refine ⟨⟨_,returned,sorts⟩,_,returned,rows,sorts,?_⟩
    exact filter_true _
  | topN items count offset child ih =>
    obtain ⟨inner,under,sorts⟩ := enters
    obtain ⟨below,entered,rfl⟩ := (generates_accepted accepted.1 contents inner).mp under
    have returned := (ih accepted.1 kept entered).2
    refine ⟨⟨_,returned,sorts⟩,_,returned,rows,sorts,?_⟩
    exact filter_true _
  | splitTopN items count offset firstLimit firstOffset child ih =>
    obtain ⟨inner,under,first,windows,sorts⟩ := enters
    obtain ⟨below,entered,rfl⟩ := (generates_accepted accepted.1 contents inner).mp under
    have returned := (ih accepted.1 kept entered).2
    refine ⟨⟨_,returned,first,windows,sorts⟩,_,returned,first,windows,rows,sorts,?_⟩
    exact filter_true _
  | project items child ih =>
    obtain ⟨inner,under,rfl⟩ := enters
    have inside : child.shape.Accepted := accepted
    obtain ⟨below,entered,rfl⟩ := (generates_accepted inside contents inner).mp under
    have returned := (ih accepted kept entered).2
    refine ⟨⟨_,returned,rfl⟩,_,returned,?_⟩
    exact filter_true _

theorem faithful_of_kept (accepted : plan.shape.Accepted) (kept : plan.shape.LevelsKept) : Faithful plan := by
  obtain ⟨tree,made,returns⟩ := generate_accepted accepted
  refine ⟨tree,made,fun contents => ⟨?_,fun out returned => ?_⟩⟩
  · obtain ⟨rows,enters⟩ := PhysicalPlan.exists_enters accepted contents
    exact ⟨_,(returns contents _).mpr ⟨rows,enters,rfl⟩⟩
  · obtain ⟨rows,enters,rfl⟩ := (returns contents out).mp returned
    exact (enters.returns accepted kept).2

theorem PhysicalPlan.Returns.enters (accepted : plan.shape.Accepted) (kept : plan.shape.LevelsKept)
    (ordered : plan.shape.segment.ordered) (returns : plan.Returns contents out) :
    ∃ rows, plan.Enters (fun child inner => child.Returns contents inner) contents rows ∧
      out = plan.finish rows := by
  induction plan generalizing out with
  | leaf => cases ordered
  | filter predicate child ih =>
    obtain ⟨_,under,rfl⟩ := returns
    obtain ⟨rows,enters,rfl⟩ := ih accepted kept.1 ordered under
    have short := enters.length_le fun _ _ => PhysicalPlan.Returns.length_le
    exact ⟨rows,enters,(Segment.finish_filter kept.2 ordered short).symm⟩
  | limit count offset child ih =>
    rw [PhysicalPlan.shape, Shape.segment, Segment.limitTo_ordered] at ordered
    obtain ⟨_,under,rfl⟩ := returns
    obtain ⟨rows,enters,rfl⟩ := ih accepted.1 kept.1 ordered under
    have short := enters.length_le fun _ _ => PhysicalPlan.Returns.length_le
    exact ⟨rows,enters,(finish_limit accepted kept.2 short).symm⟩
  | subqueryAlias child ih => exact ih accepted kept ordered returns
  | sort items child =>
    obtain ⟨inner,under,sorted,sorts,equal⟩ := returns
    exact ⟨sorted,⟨inner,under,sorts⟩,equal.trans (filter_true _).symm⟩
  | topN items count offset child =>
    obtain ⟨inner,under,sorted,sorts,rfl⟩ := returns
    exact ⟨sorted,⟨inner,under,sorts⟩,(filter_true _).symm⟩
  | splitTopN items count offset firstLimit firstOffset child =>
    obtain ⟨inner,under,first,windows,sorted,sorts,rfl⟩ := returns
    exact ⟨sorted,⟨inner,under,first,windows,sorts⟩,(filter_true _).symm⟩
  | project items child =>
    obtain ⟨inner,under,rfl⟩ := returns
    exact ⟨_,⟨inner,under,rfl⟩,(filter_true _).symm⟩

end

end NovaRocks.Codegen
