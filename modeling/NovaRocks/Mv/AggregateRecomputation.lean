import NovaRocks.Mv.AggregateRefresh

/-!
Refresh of an aggregate view against recomputation. The refresh fails where a group
has inserted and deleted rows at once; a group that has lost its last row stays in the
table; a sum that has lost its last input is zero instead of NULL; and a group whose
counts are all zero is not written even where it has rows.
-/
namespace NovaRocks.Mv
open NovaRocks.Store NovaRocks.Lake List
open AggregatePhysicalRow (rowId toTuple)

section
variable {mv : AggregateMv B}

theorem keyOf_toTuple (row : AggregatePhysicalRow) : mv.schema.keyOf row.toTuple = [.text row.rowId] :=
  rfl

theorem textKey_injective : Function.Injective fun s : String => ([.text s] : Tuple) := by
  intro a b same
  simpa using same

theorem toTuple_inj (one : WellShaped mv g first)
    (other : WellShaped mv h second) (same : first.toTuple = second.toTuple) : first = second := by
  have decoded := physicalRowOfTuple_ok one
  rw [same, physicalRowOfTuple_ok other] at decoded
  exact (Except.ok.inj decoded).symm

theorem map_toTuple_inj (shapedA : ∀ row, a = some row → ∃ g, WellShaped mv g row)
    (shapedB : ∀ row, b = some row → ∃ g, WellShaped mv g row)
    (same : a.map toTuple = b.map toTuple) : a = b := by
  cases a with
  | none =>
    cases b with
    | none => rfl
    | some row => cases same
  | some row =>
    cases b with
    | none => cases same
    | some row' =>
      obtain ⟨g,one⟩ := shapedA row rfl
      obtain ⟨h,other⟩ := shapedB row' rfl
      rw [toTuple_inj one other (Option.some.inj same)]

theorem table_iff {values rows : List AggregatePhysicalRow}
    (after : Listed mv.schema.keyOf table (lastValue mv.schema.keyOf (values.map toTuple)))
    (keyed : (rows.map rowId).Nodup) (shaped : ∀ row ∈ values, ∃ g, WellShaped mv g row)
    (shapedRows : ∀ row ∈ rows, ∃ g, WellShaped mv g row) :
    table.Perm (rows.map toTuple) ↔
      ∀ g, mv.Typed g → lastValue rowId values (mv.encode g) = lastValue rowId rows (mv.encode g) := by
  have tuples : ∀ (values : List AggregatePhysicalRow) (s : String),
      lastValue mv.schema.keyOf (values.map toTuple) [.text s] =
        (lastValue rowId values s).map toTuple :=
    fun values s => lastValue_map textKey_injective keyOf_toTuple values
  have keyedTuples : ((rows.map toTuple).map mv.schema.keyOf).Nodup := by
    have keys : (rows.map toTuple).map mv.schema.keyOf =
        (rows.map rowId).map fun s => [.text s] := by
      rw [map_map, map_map]
      rfl
    rw [keys]
    exact keyed.map textKey_injective
  rw [← listed_iff_perm keyedTuples]
  constructor
  · intro other g _
    have here := congrFun (after.unique other) [.text (mv.encode g)]
    rw [tuples, tuples] at here
    exact map_toTuple_inj (fun row found => shaped row (lastValue_mem found).1)
      (fun row found => shapedRows row (lastValue_mem found).1) here
  · intro each
    have same : lastValue mv.schema.keyOf (values.map toTuple) = lastValue mv.schema.keyOf (rows.map toTuple) := by
      funext k
      by_cases isKey : ∃ g, mv.Typed g ∧ k = [.text (mv.encode g)]
      · obtain ⟨g,typed,rfl⟩ := isKey
        rw [tuples, tuples, each g typed]
      · have absent : ∀ values : List AggregatePhysicalRow, (∀ row ∈ values, ∃ g, WellShaped mv g row) →
            lastValue mv.schema.keyOf (values.map toTuple) k = none := by
          intro values shaped
          cases found : lastValue mv.schema.keyOf (values.map toTuple) k with
          | none => rfl
          | some t =>
            obtain ⟨member,own⟩ := lastValue_mem found
            obtain ⟨row,inside,rfl⟩ := mem_map.mp member
            obtain ⟨g,one⟩ := shaped row inside
            rw [keyOf_toTuple, one.rowId] at own
            exact (isKey ⟨g,one.typed,own.symm⟩).elim
        rw [absent values shaped, absent rows shapedRows]
    rw [← same]
    exact after

/-- What it takes for a group that inserted or deleted rows touch: where all counts are
zero its row is as before, and else it has rows left, and every sum that lost an input
has one left. -/
def TouchedRight (mv : AggregateMv B) (change : BaseChange B) (group : Tuple) : Prop :=
  (Uncounted mv (mv.members group change.current) ∧
    mv.rowAt change.old group = mv.rowAt change.current group) ∨
  (¬ Uncounted mv (mv.members group change.current) ∧ mv.members group change.current ≠ [] ∧
    ∀ column ∈ mv.stateColumns,
      column.InputLeft (mv.members group change.current) (mv.members group change.deleted))

/-- A change of the base that the refresh takes in at one group. -/
structure GroupAbsorbed (mv : AggregateMv B) (change : BaseChange B) (group : Tuple) : Prop where
  oneSided : mv.members group change.inserted = [] ∨ mv.members group change.deleted = []
  negatable : ∀ column ∈ mv.stateColumns,
    column.value (mv.members group change.deleted) ≠ some (-column.limit)
  touched : mv.members group change.inserted ≠ [] ∨ mv.members group change.deleted ≠ [] →
    TouchedRight mv change group

variable {change : BaseChange B} {inserts deletes : List Tuple}

theorem untouched_row (noInserted : mv.members group change.inserted = [])
    (noDeleted : mv.members group change.deleted = []) :
    mv.rowAt change.old group = mv.rowAt change.current group := by
  have balance := members_balance mv change group
  rw [noInserted, noDeleted, append_nil, append_nil] at balance
  have empty : mv.members group change.old = [] ↔ mv.members group change.current = [] := by
    rw [← length_eq_zero_iff, ← length_eq_zero_iff, balance.length_eq]
  unfold AggregateMv.rowAt
  simp only [groupRow_perm balance, empty]

theorem group_right_iff (permI : inserts.Perm (mv.groups change.inserted))
    (permD : deletes.Perm (mv.groups change.deleted)) (typed : mv.Typed group) :
    (((putAll rowId
        (lastValue rowId (mv.fullAggregation change.old))
        ((inserts ++ deletes).map (mergedGroup mv change)) (mv.encode group)).filter
        fun row => !allCountStatesZero mv row).or (mv.rowAt change.old group) =
        mv.rowAt change.current group) ↔
      (mv.members group change.inserted ≠ [] ∨ mv.members group change.deleted ≠ [] →
        TouchedRight mv change group) := by
  have own : ∀ g, (mergedGroup mv change g).rowId = mv.encode g := fun _ => rfl
  have apart : ∀ g ∈ inserts ++ deletes, mv.encode g = mv.encode group → g = group := by
    intro g inside same
    rw [mem_append, permI.mem_iff, permD.mem_iff] at inside
    exact rowIdOf_inj (inside.elim groups_typed groups_typed) typed same
  have found := lastValue_named apart own
  have touched : group ∈ inserts ++ deletes ↔
      mv.members group change.inserted ≠ [] ∨ mv.members group change.deleted ≠ [] := by
    rw [mem_append, permI.mem_iff, permD.mem_iff, mem_groups_iff, mem_groups_iff]
  rw [putAll_apply, found, lastValue_fullAggregation typed, ← touched]
  by_cases inside : group ∈ inserts ++ deletes
  · rw [if_pos inside, Option.some_or]
    by_cases uncounted : Uncounted mv (mv.members group change.current)
    · have zero : allCountStatesZero mv (mergedGroup mv change group) = true :=
        (allCountStatesZero_merged _ _).mpr uncounted
      simp [Option.filter, zero, TouchedRight, uncounted, inside]
    · have zero : allCountStatesZero mv (mergedGroup mv change group) = false := by
        rw [← Bool.not_eq_true]
        exact fun isZero => uncounted ((allCountStatesZero_merged _ _).mp isZero)
      have merged : mergedGroup mv change group = mv.groupRow group (mv.members group change.current) ↔
          ∀ column ∈ mv.stateColumns, column.InputLeft (mv.members group change.current)
            (mv.members group change.deleted) := mergedRow_eq_iff _ _
      simp only [Option.filter, zero, TouchedRight, uncounted, inside, AggregateMv.rowAt]
      simp [← merged]
  · have untouched := inside
    rw [touched, not_or, not_not, not_not] at untouched
    rw [if_neg inside, Option.none_or, ← untouched_row untouched.1 untouched.2]
    cases mv.rowAt change.old group with
    | none => simp [inside]
    | some row =>
      by_cases zero : allCountStatesZero mv row <;> simp [inside, zero, Option.filter]

/-- A table that is in order and shows the full aggregation of the old base. -/
structure ShowsOld (mv : AggregateMv B) (plan : ManagedInsertPlan) (old : List B) : Prop where
  schema : plan.schema = mv.schema
  held : ∃ m, plan.Holds m
  keysSet : ∀ t ∈ plan.tablets, ∀ p ∈ rowRefs t.placed, .null ∉ plan.schema.keyOf p.2
  shown : plan.visibleRows.Perm ((mv.fullAggregation old).map toTuple)

theorem fullAggregation_wellShaped : ∀ row ∈ mv.fullAggregation base, ∃ g, WellShaped mv g row := by
  intro row member
  obtain ⟨g,shaped,_⟩ := fullAggregation_shaped member
  exact ⟨g,shaped⟩

theorem ShowsOld.listed (shows : ShowsOld mv plan old) :
    Listed mv.schema.keyOf plan.visibleRows
      (lastValue mv.schema.keyOf ((mv.fullAggregation old).map toTuple)) := by
  obtain ⟨m,held⟩ := shows.held
  have before := held.listed
  rw [shows.schema] at before
  exact (listed_iff_perm (before.of_perm shows.shown).keyed).mpr shows.shown

theorem write_upserts (shows : ShowsOld mv plan old) (rows : List AggregatePhysicalRow) :
    ∃ plan', writeChunksIntoManagedPartition plan [upsertChunk rows] = .ok plan' ∧
      Listed mv.schema.keyOf plan'.visibleRows
        (lastValue mv.schema.keyOf ((mv.fullAggregation old ++ rows).map toTuple)) ∧
      ∀ base, plan'.visibleRows.Perm ((mv.fullAggregation base).map toTuple) → ShowsOld mv plan' base := by
  obtain ⟨m,held⟩ := shows.held
  have upserts : ∀ row ∈ upsertChunk rows, row.op = some 0 ∧ .null ∉ plan.schema.keyOf row.values := by
    intro row member
    obtain ⟨r,_,rfl⟩ := mem_map.mp member
    rw [shows.schema, keyOf_toTuple]
    simp
  have sortable : plan.schema.Sortable := by
    rw [shows.schema]
    refine ⟨by simp [AggregateMv.schema],?_⟩
    intro idx member
    simp [AggregateMv.schema] at member ⊢
    omega
  obtain ⟨plan',done,keysSet⟩ := writeUpserts_succeeds sortable upserts shows.keysSet
  have within : plan.schema.sortKeyIdxes ⊆ plan.schema.keyIdxes := by
    rw [shows.schema]
    exact Subset.refl _
  obtain ⟨same,_,after⟩ := writeChunksIntoManagedPartition_ok within held done
  have listed := after.listed
  have changes : changesOf mv.schema [upsertChunk rows].flatten =
      (rows.map toTuple).map .put := by
    simp [changesOf, upsertChunk]
  have before := held.listed
  rw [shows.schema] at before
  rw [same, shows.schema, changes, puts_of_puts, drops_of_puts, before.unique shows.listed] at listed
  refine ⟨plan',done,?_,fun base shown => ⟨same.trans shows.schema,⟨_,after⟩,?_,shown⟩⟩
  · convert listed using 1
    funext k
    rw [map_append, lastValue_append]
    exact (putAll_apply _).symm
  · rw [same]
    exact keysSet

theorem refresh_steps (run : AggregateRun mv) (fits : change.Fits mv)
    (something : ¬ (run.order change.inserted = [] ∧ run.order change.deleted = [])) :
    refreshAggregateMvIncremental run plan change.inserted change.deleted = (do
      let deleteDelta ← negateAggregateStateRows mv
        ((run.order change.deleted).map fun g => mv.groupRow g (mv.members g change.deleted))
      let old ← buildOldStateMap mv plan.visibleRows
      let merged ← mergeAggregateStateBatches mv old
        ((run.order change.inserted).map (fun g => mv.groupRow g (mv.members g change.inserted)) ++ deleteDelta)
      writeChunksIntoManagedPartition plan [upsertChunk merged]) := by
  unfold refreshAggregateMvIncremental
  rw [run_rows run fits.inserted, run_rows run fits.deleted]
  change (if _ then _ else _) = _
  rw [if_neg (by simpa using something), materializeAggregateResult_ok, materializeAggregateResult_ok]
  rfl

theorem members_nil (none' : ([] : List Tuple).Perm (mv.groups base)) (g : Tuple) :
    mv.members g base = [] := by
  by_contra some'
  have grouped := none'.mem_iff.mpr (mem_groups_iff.mpr some')
  cases grouped

/-- A refresh that does not fail has no group with inserted and deleted rows, and the
states of the deleted rows can be negated. -/
theorem refresh_ok_inv {run : AggregateRun mv} (fits : change.Fits mv)
    (done : refreshAggregateMvIncremental run plan change.inserted change.deleted = .ok plan') :
    (∀ g, mv.members g change.inserted = [] ∨ mv.members g change.deleted = []) ∧
      ∀ g, ∀ column ∈ mv.stateColumns,
        column.value (mv.members g change.deleted) ≠ some (-column.limit) := by
  have permI := run.listed change.inserted
  have permD := run.listed change.deleted
  have memD : ∀ g, g ∈ run.order change.deleted ↔ mv.members g change.deleted ≠ [] := fun g =>
    permD.mem_iff.trans mem_groups_iff
  have emptyState : ∀ column : AggregateStateColumn B, column.value [] ≠ some (-column.limit) := by
    intro column
    rw [column.value_nil]
    unfold zeroStateValue AggregateStateColumn.limit
    cases column.kind with
    | count star counted => simp [SumType.limit]
    | sum type input => simp
  by_cases nothing : run.order change.inserted = [] ∧ run.order change.deleted = []
  · have noneD := members_nil (nothing.2 ▸ permD)
    refine ⟨fun g => .inr (noneD g),?_⟩
    intro g column _
    rw [noneD g]
    exact emptyState column
  · rw [refresh_steps run fits nothing] at done
    obtain ⟨deleteDelta,negated,rest⟩ := bind_ok done
    obtain ⟨old,_,rest⟩ := bind_ok rest
    obtain ⟨merged,mergeDone,_⟩ := bind_ok rest
    obtain ⟨negatable,rfl⟩ := negateAggregateStateRows_iff.mp negated
    obtain ⟨loaded,loadDone,_⟩ := bind_ok mergeDone
    have distinct := ((loadRows_iff (deltaRows_valid permI permD)).mp loadDone).1
    refine ⟨(deltaRows_distinct_iff permI permD).mp distinct,?_⟩
    intro g column member
    by_cases none' : mv.members g change.deleted = []
    · rw [none']
      exact emptyState column
    · exact negatable g ((memD g).mpr none') column member

theorem refresh_succeeds (run : AggregateRun mv) (shows : ShowsOld mv plan change.old) (fits : change.Fits mv)
    (oneSided : ∀ g, mv.members g change.inserted = [] ∨ mv.members g change.deleted = [])
    (negatable : ∀ g, ∀ column ∈ mv.stateColumns,
      column.value (mv.members g change.deleted) ≠ some (-column.limit)) :
    ∃ plan', refreshAggregateMvIncremental run plan change.inserted change.deleted = .ok plan' ∧
      (plan'.visibleRows.Perm ((mv.fullAggregation change.current).map toTuple) ↔
        ∀ g, mv.members g change.inserted ≠ [] ∨ mv.members g change.deleted ≠ [] →
          TouchedRight mv change g) := by
  have permI := run.listed change.inserted
  have permD := run.listed change.deleted
  by_cases nothing : run.order change.inserted = [] ∧ run.order change.deleted = []
  · have noneI := members_nil (nothing.1 ▸ permI)
    have noneD := members_nil (nothing.2 ▸ permD)
    refine ⟨plan,?_,?_⟩
    · unfold refreshAggregateMvIncremental
      rw [run_rows run fits.inserted, run_rows run fits.deleted, nothing.1, nothing.2]
      rfl
    · rw [table_iff shows.listed fullAggregation_keyed fullAggregation_wellShaped fullAggregation_wellShaped]
      constructor
      · intro _ g touched
        exact (touched.elim (· (noneI g)) (· (noneD g))).elim
      · intro _ g typed
        rw [lastValue_fullAggregation typed, lastValue_fullAggregation typed]
        exact untouched_row (noneI g) (noneD g)
  · obtain ⟨old,oldDone,isOld⟩ := buildOldStateMap_ok shows.shown
    obtain ⟨kept,mergeDone,listed⟩ := mergeAggregateStateBatches_ok permI permD isOld fits.current oneSided
    obtain ⟨plan',written,after,-⟩ := write_upserts shows kept
    have negated : negateAggregateStateRows mv
        ((run.order change.deleted).map fun g => mv.groupRow g (mv.members g change.deleted)) =
        .ok ((run.order change.deleted).map fun g => negatedRow mv g (mv.members g change.deleted)) :=
      negateAggregateStateRows_iff.mpr ⟨fun g _ => negatable g,rfl⟩
    refine ⟨plan',?_,?_⟩
    · rw [refresh_steps run fits nothing, negated]
      rw [oldDone]
      change (mergeAggregateStateBatches mv old (deltaRows mv change _ _) >>= _) = _
      rw [mergeDone]
      exact written
    · have keptMap := (listed_lastValue listed.keyed).unique listed
      have shaped : ∀ row ∈ kept, ∃ g, WellShaped mv g row := by
        intro row member
        have found := (Option.filter_eq_some_iff.mp ((listed.mem row).mp member)).1
        rw [putAll_apply] at found
        rcases Option.or_eq_some_iff.mp found with new | ⟨_,old⟩
        · obtain ⟨g,inside,rfl⟩ := mem_map.mp (lastValue_mem new).1
          rw [mem_append, permI.mem_iff, permD.mem_iff] at inside
          exact ⟨g,mergedRow_shaped (inside.elim groups_typed groups_typed) _ _⟩
        · exact fullAggregation_wellShaped row (lastValue_mem old).1
      rw [table_iff after fullAggregation_keyed (forall_mem_append.mpr ⟨fullAggregation_wellShaped,shaped⟩)
        fullAggregation_wellShaped]
      apply forall_congr'
      intro g
      by_cases typed : mv.Typed g
      · rw [← group_right_iff permI permD typed, lastValue_append, lastValue_fullAggregation typed,
          lastValue_fullAggregation typed, keptMap]
        simp only [typed, forall_const]
      · refine iff_of_true (fun isTyped => (typed isTyped).elim) fun touched => ?_
        rw [← mem_groups_iff, ← mem_groups_iff] at touched
        exact (typed (touched.elim groups_typed groups_typed)).elim

/-- The refresh succeeds and the table shows the full aggregation of the current base
exactly where it takes in the change at every group. -/
theorem refresh_recomputes_iff {run : AggregateRun mv} {plan : ManagedInsertPlan}
    (shows : ShowsOld mv plan change.old) (fits : change.Fits mv) :
    (∃ plan', refreshAggregateMvIncremental run plan change.inserted change.deleted = .ok plan' ∧
      plan'.visibleRows.Perm
        ((mv.fullAggregation change.current).map toTuple)) ↔
      ∀ g, GroupAbsorbed mv change g := by
  constructor
  · rintro ⟨plan',done,shown⟩ g
    obtain ⟨oneSided,negatable⟩ := refresh_ok_inv fits done
    obtain ⟨plan'',done',right⟩ := refresh_succeeds run shows fits oneSided negatable
    rw [done] at done'
    cases done'
    exact ⟨oneSided g,negatable g,right.mp shown g⟩
  · intro absorbed
    obtain ⟨plan',done,right⟩ := refresh_succeeds run shows fits
      (fun g => (absorbed g).oneSided) (fun g => (absorbed g).negatable)
    exact ⟨plan',done,right.mpr fun g => (absorbed g).touched⟩

/-! ### One refresh after the other -/

theorem refresh_shows {run : AggregateRun mv} (shows : ShowsOld mv plan old)
    (done : refreshAggregateMvIncremental run plan inserted deleted = .ok plan')
    (shown : plan'.visibleRows.Perm ((mv.fullAggregation base).map toTuple)) : ShowsOld mv plan' base := by
  obtain ⟨inserts,_,done⟩ := bind_ok done
  obtain ⟨deletes,_,done⟩ := bind_ok done
  split at done
  · cases done
    exact { shows with shown }
  · obtain ⟨_,_,done⟩ := bind_ok done
    obtain ⟨_,_,done⟩ := bind_ok done
    obtain ⟨_,_,done⟩ := bind_ok done
    obtain ⟨_,_,done⟩ := bind_ok done
    obtain ⟨merged,_,done⟩ := bind_ok done
    obtain ⟨_,written,-,keeps⟩ := write_upserts shows merged
    cases written.symm.trans done
    exact keeps base shown

/-- Each change starts from the base that the one before it has left. -/
def Follows : List B → List (BaseChange B) → Prop
  | _, [] => True
  | base, change :: changes => change.old = base ∧ Follows change.current changes

/-- Any number of refreshes, each of which takes in its change at every group, succeed one
after the other and leave the full aggregation of the last base: no error builds up. -/
theorem refreshes_recompute (run : AggregateRun mv) {changes : List (BaseChange B)}
    (shows : ShowsOld mv plan base) (follows : Follows base changes)
    (fits : ∀ change ∈ changes, change.Fits mv)
    (absorbed : ∀ change ∈ changes, ∀ g, GroupAbsorbed mv change g) :
    ∃ plan', changes.foldlM (fun plan change =>
        refreshAggregateMvIncremental run plan change.inserted change.deleted) plan = .ok plan' ∧
      ShowsOld mv plan' (changes.foldl (fun _ change => change.current) base) := by
  induction changes generalizing plan base with
  | nil => exact ⟨plan,rfl,shows⟩
  | cons change changes ih =>
    obtain ⟨rfl,follows⟩ := follows
    rw [forall_mem_cons] at fits absorbed
    obtain ⟨next,done,right⟩ := refresh_succeeds run shows fits.1 (fun g => (absorbed.1 g).oneSided)
      fun g => (absorbed.1 g).negatable
    have shown := right.mpr fun g => (absorbed.1 g).touched
    obtain ⟨plan',rest,last⟩ := ih (refresh_shows shows done shown) follows fits.2 absorbed.2
    refine ⟨plan',?_,last⟩
    rw [foldlM_cons, done]
    exact rest

end

/-! A view of sales at home and abroad. -/

structure Sale where
  domestic : Bool
  amount : Option Int
  deriving DecidableEq

def salesMv : AggregateMv Sale :=
  ⟨fun _ => true, [.boolean], fun b => [.bool b.domestic], fun _ => .cons rfl .nil,
    [⟨"n", .countStar⟩, ⟨"total", .sum .int64 Sale.amount⟩], fun _ sum count => .int (sum / count)⟩

def salesRun : AggregateRun salesMv :=
  ⟨salesMv.groups, fun _ => Perm.refl _⟩

def noSales : ManagedInsertPlan :=
  ⟨salesMv.schema, fun _ => 0, [emptyTablet], one_tablet _⟩

theorem noSales_shows : ShowsOld salesMv noSales [] :=
  ⟨rfl,⟨_,holds_emptyTablet _ _⟩,by decide,Perm.nil⟩

def firstSales : BaseChange Sale :=
  ⟨[], [⟨true, some 5⟩, ⟨true, some 7⟩, ⟨false, none⟩], [],
    [⟨true, some 5⟩, ⟨true, some 7⟩, ⟨false, none⟩], Perm.refl _⟩

def laterSales : BaseChange Sale :=
  ⟨firstSales.current, [⟨false, some 3⟩], [⟨true, some 5⟩],
    [⟨true, some 7⟩, ⟨false, none⟩, ⟨false, some 3⟩], by decide⟩

theorem sales_members (g : Tuple) : (∃ domestic, g = [.bool domestic]) ∨ ∀ base, salesMv.members g base = [] := by
  by_cases typed : ∃ domestic, g = [.bool domestic]
  · exact .inl typed
  · refine .inr fun base => filter_eq_nil_iff.mpr fun sale _ => ?_
    simp [salesMv, show [.bool sale.domestic] ≠ g from fun same => typed ⟨_,same.symm⟩]

theorem sales_fit {base : List Sale} (each : ∀ domestic, ∀ column ∈ salesMv.stateColumns,
    -column.limit ≤ column.total (salesMv.members [.bool domestic] base) ∧
      column.total (salesMv.members [.bool domestic] base) < column.limit) : salesMv.Fit base := by
  intro g
  obtain ⟨domestic,rfl⟩ | nobody := sales_members g
  · exact each domestic
  · rw [nobody]
    unfold AggregateStateColumn.Fits
    decide

theorem firstSales_fits : firstSales.Fits salesMv :=
  ⟨sales_fit (by decide),sales_fit (by decide),sales_fit (by decide)⟩

theorem laterSales_fits : laterSales.Fits salesMv :=
  ⟨sales_fit (by decide),sales_fit (by decide),sales_fit (by decide)⟩

theorem sales_absorbed {change : BaseChange Sale} (each : ∀ domestic,
      let inserted := salesMv.members [.bool domestic] change.inserted
      let deleted := salesMv.members [.bool domestic] change.deleted
      let current := salesMv.members [.bool domestic] change.current
      (inserted = [] ∨ deleted = []) ∧ current ≠ [] ∧ ∀ column ∈ salesMv.stateColumns,
        column.value deleted ≠ some (-column.limit) ∧ column.retracted current deleted = column.value current)
    (g : Tuple) : GroupAbsorbed salesMv change g := by
  obtain ⟨domestic,rfl⟩ | nobody := sales_members g
  · obtain ⟨oneSided,some',columns⟩ := each domestic
    refine ⟨oneSided,fun column member => (columns column member).1,fun _ => .inr ⟨?_,some',?_⟩⟩
    · rintro ⟨-,zero⟩
      have counted : (countP (fun _ => true) (salesMv.members [.bool domestic] change.current) : Int) = 0 :=
        zero (salesMv.stateColumns.get ⟨0,by decide⟩) (get_mem _ _) rfl
      exact some' (by simpa using counted)
    · exact fun column member => AggregateStateColumn.retracted_eq_value_iff.mp (columns column member).2
  · refine ⟨.inl (nobody _),?_,fun touched => ?_⟩
    · rw [nobody]
      decide
    · simp [nobody] at touched

theorem firstSales_absorbed : ∀ g, GroupAbsorbed salesMv firstSales g :=
  sales_absorbed (by decide)

theorem laterSales_absorbed : ∀ g, GroupAbsorbed salesMv laterSales g :=
  sales_absorbed (by decide)

def openedSales : ManagedInsertPlan :=
  (refreshAggregateMvIncremental salesRun noSales firstSales.inserted firstSales.deleted).toOption.getD noSales

theorem openedSales_shows : ShowsOld salesMv openedSales laterSales.old := by
  have done : refreshAggregateMvIncremental salesRun noSales firstSales.inserted firstSales.deleted =
      .ok openedSales := rfl
  exact refresh_shows noSales_shows done (by decide)

theorem refresh_recomputes_iff_laterSales :
    (∃ plan', refreshAggregateMvIncremental salesRun openedSales [⟨false, some 3⟩] [⟨true, some 5⟩] = .ok plan' ∧
      plan'.visibleRows.Perm ((salesMv.fullAggregation laterSales.current).map toTuple)) ∧
    salesMv.fullAggregation laterSales.current =
      [⟨"626f6f6c65616e3a563a01", [.bool true, .int 1, .int 7], [some 1, some 7]⟩,
        ⟨"626f6f6c65616e3a563a00", [.bool false, .int 2, .int 3], [some 2, some 3]⟩] :=
  ⟨(refresh_recomputes_iff openedSales_shows laterSales_fits).mpr laterSales_absorbed,by decide⟩

theorem refreshes_recompute_twice :
    ∃ plan', [firstSales, laterSales].foldlM (fun plan change =>
        refreshAggregateMvIncremental salesRun plan change.inserted change.deleted) noSales = .ok plan' ∧
      ShowsOld salesMv plan' [⟨true, some 7⟩, ⟨false, none⟩, ⟨false, some 3⟩] :=
  refreshes_recompute salesRun noSales_shows ⟨rfl,rfl,trivial⟩ (by simp [firstSales_fits, laterSales_fits])
    (by simp [firstSales_absorbed, laterSales_absorbed])

def oneSale : ManagedInsertPlan :=
  ⟨salesMv.schema, fun _ => 0,
    [⟨[⟨1, [⟨⟨9, 0⟩, [(salesMv.groupRow [.bool true] [⟨true, some 5⟩]).toTuple]⟩]⟩], some 2, fun _ => []⟩],
    one_tablet _⟩

/-- The amount of the sale is updated, and the refresh fails on the two states of its
group. -/
theorem updated_sale_fails :
    oneSale.visibleRows = (salesMv.fullAggregation [⟨true, some 5⟩]).map toTuple ∧
    refreshAggregateMvIncremental salesRun oneSale [⟨true, some 7⟩] [⟨true, some 5⟩] =
      .error "aggregate MV state corruption: duplicate row id `626f6f6c65616e3a563a01`" := by
  constructor
  · decide
  · rfl

end NovaRocks.Mv
