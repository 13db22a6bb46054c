import NovaRocks.Mv.AggregateMerge
import NovaRocks.Store.Delta

/-!
Incremental refresh of an aggregate materialized view. The inserted and the deleted
rows are aggregated apart, the states of the latter are negated, and both are merged
into the states read from the table. The merged rows are upserted; nothing is deleted
from the table.
-/
namespace NovaRocks.Mv
open NovaRocks.Store NovaRocks.Lake List
open AggregatePhysicalRow (rowId toTuple)
open AggregateStateColumn (merge_deleted merge_inserted retracted_eq_value_iff)

section
variable {B : Type}

namespace AggregateMv

variable (mv : AggregateMv B)

def members (group : Tuple) (base : List B) : List B :=
  base.filter fun b => mv.keep b && mv.groupKey b = group

def groups (base : List B) : List Tuple :=
  ((base.filter mv.keep).map mv.groupKey).dedup

def fullAggregation (base : List B) : List AggregatePhysicalRow :=
  (mv.groups base).map fun g => mv.groupRow g (mv.members g base)

def rowAt (base : List B) (group : Tuple) : Option AggregatePhysicalRow :=
  if mv.members group base = [] then none else some (mv.groupRow group (mv.members group base))

end AggregateMv

/-- What the executor leaves in a state column. The 64-bit accumulators of COUNT and SUM wrap;
a decimal sum is accumulated in 256 bits and has to fit 128. -/
def AggregateStateColumn.executed (column : AggregateStateColumn B) (rows : List B) :
    Except String (Option Int) :=
  match column.kind, column.value rows with
  | .sum .decimal128 _, some sum =>
    if -SumType.decimal128.limit ≤ sum ∧ sum < SumType.decimal128.limit then .ok (some sum)
    else .error "decimal overflow"
  | _, state => .ok (state.map fun n => n.bmod (2 ^ 64))

/-- The executor: the order in which it returns the groups. -/
structure AggregateRun (mv : AggregateMv B) where
  order : List B → List Tuple
  listed : ∀ base, (order base).Perm (mv.groups base)

def AggregateRun.rows {mv : AggregateMv B} (run : AggregateRun mv) (base : List B) :
    Except String (List (Tuple × List (Option Int))) :=
  (run.order base).mapM fun g => do
    let states ← mv.stateColumns.mapM fun column => column.executed (mv.members g base)
    return (g, states)

def upsertChunk (rows : List AggregatePhysicalRow) : List WriteRow :=
  rows.map fun row => ⟨some 0, row.toTuple⟩

def refreshAggregateMvIncremental {mv : AggregateMv B} (run : AggregateRun mv)
    (plan : ManagedInsertPlan) (inserted deleted : List B) : Except String ManagedInsertPlan := do
  let inserts ← run.rows inserted
  let deletes ← run.rows deleted
  if inserts.isEmpty && deletes.isEmpty then .ok plan
  else do
    let insertDelta ← materializeAggregateResult mv inserts
    let deleteDeltaPositive ← materializeAggregateResult mv deletes
    let deleteDelta ← negateAggregateStateRows mv deleteDeltaPositive
    let old ← buildOldStateMap mv plan.visibleRows
    let merged ← mergeAggregateStateBatches mv old (insertDelta ++ deleteDelta)
    writeChunksIntoManagedPartition plan [upsertChunk merged]

section
variable {mv : AggregateMv B}

theorem mem_groups_iff : group ∈ mv.groups base ↔ mv.members group base ≠ [] := by
  rw [AggregateMv.groups, mem_dedup, mem_map, AggregateMv.members, Ne, filter_eq_nil_iff]
  constructor
  · rintro ⟨b,member,own⟩ none'
    obtain ⟨inside,kept⟩ := mem_filter.mp member
    exact none' b inside (by simp [kept, own])
  · intro some'
    simp only [not_forall] at some'
    obtain ⟨b,inside,selected⟩ := some'
    have both : mv.keep b = true ∧ mv.groupKey b = group := by simpa using selected
    exact ⟨b,mem_filter.mpr ⟨inside,both.1⟩,both.2⟩

theorem groups_typed (member : group ∈ mv.groups base) : mv.Typed group := by
  rw [AggregateMv.groups, mem_dedup, mem_map] at member
  obtain ⟨b,_,rfl⟩ := member
  exact mv.groupTyped b

theorem rowAt_eq : mv.rowAt base group =
    if group ∈ mv.groups base then some (mv.groupRow group (mv.members group base)) else none := by
  simp only [AggregateMv.rowAt, mem_groups_iff, ne_eq, ite_not]

theorem lastValue_fullAggregation (typed : mv.Typed group) :
    lastValue rowId (mv.fullAggregation base) (mv.encode group) =
      mv.rowAt base group := by
  have own : ∀ g, (mv.groupRow g (mv.members g base)).rowId = mv.encode g := fun _ => rfl
  have apart : ∀ g ∈ mv.groups base, mv.encode g = mv.encode group → g = group := fun g member =>
    rowIdOf_inj (groups_typed member) typed
  have found := lastValue_named apart own
  rw [rowAt_eq, AggregateMv.fullAggregation]
  convert found

theorem fullAggregation_keyed : ((mv.fullAggregation base).map rowId).Nodup := by
  rw [AggregateMv.fullAggregation, map_map]
  exact (nodup_dedup _).map_on fun g inside h inside' =>
    rowIdOf_inj (groups_typed inside) (groups_typed inside')

def AggregateMv.Fit (mv : AggregateMv B) (rows : List B) : Prop :=
  ∀ g, ∀ column ∈ mv.stateColumns, column.Fits (mv.members g rows)

theorem wrapped_fits {n : Int} (low : -SumType.int64.limit ≤ n) (high : n < SumType.int64.limit) :
    n.bmod (2 ^ 64) = n := by
  simp only [SumType.limit] at low high
  exact Int.bmod_eq_of_le (by omega) (by omega)

theorem executed_fits {column : AggregateStateColumn B} {rows : List B} (fits : column.Fits rows) :
    column.executed rows = .ok (column.value rows) := by
  obtain ⟨low,high⟩ := fits
  unfold AggregateStateColumn.executed
  unfold AggregateStateColumn.limit at low high
  rcases column.value_cases rows with ⟨none',_,_⟩ | some'
  · rw [none']
    split <;> trivial
  · rw [some']
    cases kind : column.kind with
    | count star counted =>
      rw [kind] at low high
      exact congrArg (Except.ok ∘ some) (wrapped_fits low high)
    | sum type input =>
      rw [kind] at low high
      cases type with
      | int64 => exact congrArg (Except.ok ∘ some) (wrapped_fits low high)
      | decimal128 => exact if_pos ⟨low,high⟩

theorem run_rows (run : AggregateRun mv) (fits : mv.Fit base) :
    run.rows base = .ok ((run.order base).map fun g => (g, mv.states (mv.members g base))) := by
  apply mapM_ok
  intro g _
  rw [mapM_ok fun column member => executed_fits (fits g column member)]
  rfl

theorem deriveVisible_states (rows : List B) :
    deriveVisible mv mv.aggregates (mv.states rows) = .ok (mv.aggregates.map (callValue mv rows)) :=
  deriveVisible_value rows mv.aggregates mv.groupCount

theorem materializeAggregateResult_ok (names : List Tuple) (rows : Tuple → List B) :
    materializeAggregateResult mv (names.map fun g => (g, mv.states (rows g))) =
      .ok (names.map fun g => mv.groupRow g (rows g)) := by
  induction names with
  | nil => rfl
  | cons g rest ih =>
    simp [materializeAggregateResult, materializeAggregateResultRow, deriveVisible_states, ih, bind,
      Except.bind, pure, Except.pure, AggregateMv.groupRow]

/-! The rows of the table are read back. -/

theorem statesOfCells_ok (states : List (Option Int)) :
    statesOfCells (states.map stateCell) = .ok states := by
  induction states with
  | nil => rfl
  | cons state rest ih =>
    cases state with
    | none | some => simp [statesOfCells, stateCell, stateOfCell, ih, bind, Except.bind, pure, Except.pure]

theorem physicalRowOfTuple_ok (shaped : WellShaped mv group row) :
    physicalRowOfTuple mv row.toTuple = .ok row := by
  have visible := shaped.visible
  simp [physicalRowOfTuple, toTuple, guardThat, shaped.state, ← visible,
    statesOfCells_ok, bind, Except.bind, pure, Except.pure]

variable {rows : List AggregatePhysicalRow}

theorem physicalRowsOfTuples_ok (shaped : ∀ row ∈ rows, ∃ g, WellShaped mv g row) :
    physicalRowsOfTuples mv (rows.map toTuple) = .ok rows := by
  induction rows with
  | nil => rfl
  | cons row rest ih =>
    rw [forall_mem_cons] at shaped
    obtain ⟨⟨g,first⟩,later⟩ := shaped
    simp [physicalRowsOfTuples, physicalRowOfTuple_ok first, ih later, bind, Except.bind, pure,
      Except.pure]

theorem exists_rows_of_perm (shown : table.Perm (rows.map toTuple)) :
    ∃ listed : List AggregatePhysicalRow, listed.Perm rows ∧
      table = listed.map toTuple := by
  have each : Forall₂ (fun t row => t = toTuple row) (rows.map toTuple) rows := by simp [forall₂_same]
  obtain ⟨listed,same,perm⟩ := perm_comp_forall₂ shown each
  refine ⟨listed,perm,?_⟩
  rwa [← forall₂_eq_eq_eq, forall₂_map_right_iff]

theorem fullAggregation_shaped (member : row ∈ mv.fullAggregation base) :
    ∃ g, WellShaped mv g row ∧ validateLoadedPhysicalRow mv false row = .ok () := by
  obtain ⟨g,inside,rfl⟩ := mem_map.mp member
  have typed := groups_typed inside
  exact ⟨g,groupRow_shaped typed _,groupRow_valid typed (mem_groups_iff.mp inside)⟩

theorem buildOldStateMap_ok (shown : table.Perm ((mv.fullAggregation base).map toTuple)) :
    ∃ rows, buildOldStateMap mv table = .ok rows ∧ rows.Perm (mv.fullAggregation base) := by
  obtain ⟨rows,perm,rfl⟩ := exists_rows_of_perm shown
  refine ⟨rows,?_,perm⟩
  have valid := fun row (member : row ∈ rows) => fullAggregation_shaped (perm.mem_iff.mp member)
  have keyed := (perm.map rowId).nodup_iff.mpr fullAggregation_keyed
  rw [buildOldStateMap, physicalRowsOfTuples_ok fun row member => (valid row member).imp fun _ => And.left]
  apply (loadRows_iff _).mpr ⟨keyed,by simp,by simp⟩
  intro row member
  obtain ⟨_,_,ok⟩ := valid row member
  exact ok

end

/-! One refresh, group by group. -/

structure BaseChange (B : Type) where
  old : List B
  inserted : List B
  deleted : List B
  current : List B
  balance : (current ++ deleted).Perm (old ++ inserted)

/-- No state of the current, the inserted or the deleted rows overflows. -/
structure BaseChange.Fits (change : BaseChange B) (mv : AggregateMv B) : Prop where
  current : mv.Fit change.current
  inserted : mv.Fit change.inserted
  deleted : mv.Fit change.deleted

/-- The merged row of a group: the states of the rows that are left, as far as the
deleted rows allow it. -/
def mergedRow (mv : AggregateMv B) (group : Tuple) (left deleted : List B) : AggregatePhysicalRow :=
  let states := mv.stateColumns.map fun column => column.retracted left deleted
  ⟨mv.encode group, group ++ (deriveVisible mv mv.aggregates states).toOption.getD [], states⟩

section
variable {mv : AggregateMv B} {change : BaseChange B}

theorem members_balance (mv : AggregateMv B) (change : BaseChange B) (group : Tuple) :
    (mv.members group change.current ++ mv.members group change.deleted).Perm
      (mv.members group change.old ++ mv.members group change.inserted) := by
  have balance := change.balance.filter fun b => mv.keep b && decide (mv.groupKey b = group)
  rwa [filter_append, filter_append] at balance

theorem retracted_nil (column : AggregateStateColumn B) (left : List B) :
    column.retracted left [] = column.value left := by
  rw [retracted_eq_value_iff]
  unfold AggregateStateColumn.InputLeft
  cases column.kind with
  | count star counted => trivial
  | sum type input => exact fun _ => rfl

theorem mergedRow_shaped (typed : mv.Typed group) (left deleted : List B) :
    WellShaped mv group (mergedRow mv group left deleted) := by
  obtain ⟨values,derived,sameLength⟩ : ∃ values, deriveVisible mv mv.aggregates
      (mv.stateColumns.map fun column => column.retracted left deleted) = .ok values ∧
      values.length = mv.aggregates.length :=
    deriveVisible_succeeds (countsSet_retracted left deleted) mv.aggregates mv.groupCount
  have row : mergedRow mv group left deleted = ⟨mv.encode group,group ++ values,
      mv.stateColumns.map fun column => column.retracted left deleted⟩ := by
    simp only [mergedRow, derived]
    rfl
  rw [row]
  exact ⟨typed,rfl,by simp [AggregateMv.visibleCount, typed.length, sameLength],by simp,
    by simp [← typed.length]⟩

theorem mergedRow_eq_iff (left deleted : List B) :
    mergedRow mv group left deleted = mv.groupRow group left ↔
      ∀ column ∈ mv.stateColumns, column.InputLeft left deleted := by
  constructor
  · intro same column member
    have states := congrArg AggregatePhysicalRow.state same
    exact retracted_eq_value_iff.mp (map_inj_left.mp states column member)
  · intro each
    have states : (mv.stateColumns.map fun column => column.retracted left deleted) = mv.states left := by
      apply map_congr_left
      intro column member
      exact retracted_eq_value_iff.mpr (each column member)
    simp only [mergedRow, states, deriveVisible_states]
    rfl

theorem mergeRow_group (shaped : WellShaped mv group delta)
    (fits : ∀ column ∈ mv.stateColumns, column.Fits current)
    (balance : (current ++ deleted).Perm (old ++ inserted))
    (kind : (deleted = [] ∧ delta.state = mv.states inserted) ∨ (inserted = [] ∧
      delta.state = mv.stateColumns.map fun column => (column.value deleted).map Neg.neg)) :
    mergeRow mv ((if old = [] then none else some (mv.groupRow group old)).getD (zeroBaseRow mv delta))
      delta = .ok (mergedRow mv group current deleted) := by
  have start : ∃ row, (if old = [] then none else some (mv.groupRow group old)).getD
      (zeroBaseRow mv delta) = row ∧ WellShaped mv group row ∧ row.state = mv.states old := by
    by_cases new : old = []
    · rw [if_pos new, new]
      exact ⟨_,rfl,zeroBaseRow_shaped shaped,zeroBaseRow_state delta⟩
    · rw [if_neg new]
      exact ⟨_,rfl,groupRow_shaped shaped.typed old,rfl⟩
  obtain ⟨row,same,rowShaped,states⟩ := start
  rw [same]
  have each : ∃ deltas : AggregateStateColumn B → Option Int,
      delta.state = mv.stateColumns.map deltas ∧ ∀ column ∈ mv.stateColumns,
        mergeStateValue column (column.value old) (deltas column) =
          .ok (column.retracted current deleted) := by
    rcases kind with ⟨rfl,own⟩ | ⟨rfl,own⟩
    · refine ⟨fun column => column.value inserted,own,?_⟩
      intro column member
      rw [append_nil] at balance
      have fitsAll : column.Fits (old ++ inserted) := by
        unfold AggregateStateColumn.Fits
        rw [← column.total_perm balance]
        exact fits column member
      rw [merge_inserted fitsAll, retracted_nil, column.value_perm balance]
    · refine ⟨fun column => (column.value deleted).map Neg.neg,own,?_⟩
      intro column member
      rw [append_nil] at balance
      exact merge_deleted (fits column member) balance
  obtain ⟨deltas,own,merges⟩ := each
  obtain ⟨values,derived,done⟩ := mergeRow_ok rowShaped states own merges
    (countsSet_retracted current deleted)
  rw [done]
  simp only [mergedRow, derived]
  rfl

def Uncounted (mv : AggregateMv B) (rows : List B) : Prop :=
  (∃ column ∈ mv.stateColumns, column.isCount) ∧
    ∀ column ∈ mv.stateColumns, column.isCount → column.total rows = 0

theorem allCountStatesZero_iff (own : row.state = mv.stateColumns.map states) :
    allCountStatesZero mv row ↔ (∃ column ∈ mv.stateColumns, column.isCount) ∧
      ∀ column ∈ mv.stateColumns, column.isCount → states column = some 0 := by
  unfold allCountStatesZero
  rw [own]
  simp only [zip_states, filter_map, Bool.and_eq_true, all_map, all_eq_true]
  simp

theorem allCountStatesZero_merged (left deleted : List B) :
    allCountStatesZero mv (mergedRow mv group left deleted) ↔ Uncounted mv left := by
  have states : (mergedRow mv group left deleted).state =
      mv.stateColumns.map fun column => column.retracted left deleted := rfl
  rw [allCountStatesZero_iff states, Uncounted]
  have counts : ∀ column : AggregateStateColumn B, column.isCount →
      column.retracted left deleted = some (column.total left) := by
    intro column isCount
    unfold AggregateStateColumn.retracted
    rcases column.value_cases deleted with ⟨_,_,notCount⟩ | some'
    · cases isCount.symm.trans notCount
    · rw [if_neg (by simp [some'])]
  refine and_congr_right fun _ => forall₃_congr fun column _ isCount => ?_
  rw [counts column isCount, Option.some_inj]

def deltaRows (mv : AggregateMv B) (change : BaseChange B) (inserts deletes : List Tuple) :
    List AggregatePhysicalRow :=
  inserts.map (fun g => mv.groupRow g (mv.members g change.inserted)) ++
    deletes.map fun g => negatedRow mv g (mv.members g change.deleted)

variable {inserts deletes : List Tuple}

theorem deltaRows_ids :
    (deltaRows mv change inserts deletes).map rowId =
      (inserts ++ deletes).map mv.encode := by
  rw [deltaRows, map_append, map_map, map_map, map_append]
  rfl

theorem negatedRow_shaped (typed : mv.Typed group) (rows : List B) :
    WellShaped mv group (negatedRow mv group rows) :=
  { groupRow_shaped typed rows with rowId := rfl, state := by simp [negatedRow] }

variable (permI : inserts.Perm (mv.groups change.inserted))

variable (permD : deletes.Perm (mv.groups change.deleted))

include permI permD in
theorem deltaRows_valid :
    ∀ row ∈ deltaRows mv change inserts deletes, validateLoadedPhysicalRow mv true row = .ok () := by
  refine forall_mem_append.mpr ⟨forall_mem_map.mpr fun g listed => ?_,forall_mem_map.mpr fun g listed => ?_⟩
  · have typed := groups_typed (permI.mem_iff.mp listed)
    exact (groupRow_shaped typed _).validate_lenient rfl (countsSet_value _)
  · have typed := groups_typed (permD.mem_iff.mp listed)
    refine (negatedRow_shaped typed _).validate_lenient rfl ?_
    intro column isCount
    rw [Option.isSome_map]
    exact countsSet_value _ column isCount

include permI permD in
theorem deltaRows_distinct_iff :
    ((deltaRows mv change inserts deletes).map rowId).Nodup ↔
      ∀ g, mv.members g change.inserted = [] ∨ mv.members g change.deleted = [] := by
  have typed : ∀ g ∈ inserts ++ deletes, mv.Typed g := forall_mem_append.mpr
    ⟨fun g listed => groups_typed (permI.mem_iff.mp listed),fun g listed => groups_typed (permD.mem_iff.mp listed)⟩
  have ids : ((inserts ++ deletes).map mv.encode).Nodup ↔ (inserts ++ deletes).Nodup :=
    ⟨Nodup.of_map _,fun nodup => nodup.map_on fun g inside h inside' =>
      rowIdOf_inj (typed g inside) (typed h inside')⟩
  rw [deltaRows_ids, ids, nodup_append]
  have nodupI : inserts.Nodup := permI.nodup_iff.mpr (nodup_dedup _)
  have nodupD : deletes.Nodup := permD.nodup_iff.mpr (nodup_dedup _)
  have memI : ∀ g, g ∈ inserts ↔ mv.members g change.inserted ≠ [] := fun g =>
    permI.mem_iff.trans mem_groups_iff
  have memD : ∀ g, g ∈ deletes ↔ mv.members g change.deleted ≠ [] := fun g =>
    permD.mem_iff.trans mem_groups_iff
  constructor
  · rintro ⟨_,_,apart⟩ g
    by_contra both
    rw [not_or] at both
    exact apart g ((memI g).mpr both.1) g ((memD g).mpr both.2) rfl
  · intro oneSided
    refine ⟨nodupI,nodupD,?_⟩
    rintro g inI _ inD rfl
    rcases oneSided g with none' | none'
    · exact (memI g).mp inI none'
    · exact (memD g).mp inD none'

def mergedGroup (mv : AggregateMv B) (change : BaseChange B) (group : Tuple) : AggregatePhysicalRow :=
  mergedRow mv group (mv.members group change.current) (mv.members group change.deleted)

include permI permD in
theorem mergeDelta_group (fits : mv.Fit change.current)
    (oneSided : ∀ g, mv.members g change.inserted = [] ∨ mv.members g change.deleted = [])
    (member : delta ∈ deltaRows mv change inserts deletes) :
    ∃ g, WellShaped mv g delta ∧ mergeRow mv ((mv.rowAt change.old g).getD (zeroBaseRow mv delta)) delta =
        .ok (mergedGroup mv change g) := by
  rcases mem_append.mp member with inside | inside
  · obtain ⟨g,listed,rfl⟩ := mem_map.mp inside
    have grouped := permI.mem_iff.mp listed
    have shaped := groupRow_shaped (groups_typed grouped) (mv.members g change.inserted)
    have noDeleted := (oneSided g).resolve_left (mem_groups_iff.mp grouped)
    exact ⟨g,shaped,mergeRow_group shaped (fits g) (members_balance mv change g) (.inl ⟨noDeleted,rfl⟩)⟩
  · obtain ⟨g,listed,rfl⟩ := mem_map.mp inside
    have grouped := permD.mem_iff.mp listed
    have shaped := negatedRow_shaped (groups_typed grouped) (mv.members g change.deleted)
    have noInserted := (oneSided g).resolve_right (mem_groups_iff.mp grouped)
    exact ⟨g,shaped,mergeRow_group shaped (fits g) (members_balance mv change g) (.inr ⟨noInserted,rfl⟩)⟩

include permI permD in
theorem deltaRows_next :
    ((deltaRows mv change inserts deletes).map fun delta =>
      mergedGroup mv change (delta.visible.take mv.groupCount)) =
      (inserts ++ deletes).map (mergedGroup mv change) := by
  rw [deltaRows, map_append, map_map, map_map, map_append]
  congr 1
  · refine map_congr_left fun g listed => congrArg (mergedGroup mv change) ?_
    exact (groupRow_shaped (groups_typed (permI.mem_iff.mp listed)) _).group
  · refine map_congr_left fun g listed => congrArg (mergedGroup mv change) ?_
    exact (negatedRow_shaped (groups_typed (permD.mem_iff.mp listed)) _).group

include permI permD in
/-- The rows that are upserted: merged groups and untouched old ones, without those
that are given up. -/
theorem mergeAggregateStateBatches_ok (isOld : old.Perm (mv.fullAggregation change.old))
    (fits : mv.Fit change.current)
    (oneSided : ∀ g, mv.members g change.inserted = [] ∨ mv.members g change.deleted = []) :
    ∃ kept, mergeAggregateStateBatches mv old (deltaRows mv change inserts deletes) = .ok kept ∧
      Listed rowId kept fun k =>
        (putAll rowId
          (lastValue rowId (mv.fullAggregation change.old))
          ((inserts ++ deletes).map (mergedGroup mv change)) k).filter
          fun row => !allCountStatesZero mv row := by
  have distinct := (deltaRows_distinct_iff permI permD).mpr oneSided
  have loaded : loadRows mv true [] (deltaRows mv change inserts deletes) =
      .ok (deltaRows mv change inserts deletes) :=
    (loadRows_iff (deltaRows_valid permI permD)).mpr ⟨distinct,by simp,(nil_append _).symm⟩
  have listed : Listed rowId old (lastValue rowId (mv.fullAggregation change.old)) :=
    (listed_iff_perm fullAggregation_keyed).mpr isOld
  have own : ∀ delta ∈ deltaRows mv change inserts deletes,
      (mergedGroup mv change (delta.visible.take mv.groupCount)).rowId = delta.rowId := by
    intro delta member
    obtain ⟨g,shaped,_⟩ := mergeDelta_group permI permD fits oneSided member
    rw [shaped.group, shaped.rowId]
    rfl
  have each : ∀ delta ∈ deltaRows mv change inserts deletes,
      mergeRow mv ((lastValue rowId (mv.fullAggregation change.old)
        delta.rowId).getD (zeroBaseRow mv delta)) delta =
        .ok (mergedGroup mv change (delta.visible.take mv.groupCount)) := by
    intro delta member
    obtain ⟨g,shaped,merges⟩ := mergeDelta_group permI permD fits oneSided member
    rw [shaped.group, shaped.rowId, lastValue_fullAggregation shaped.typed]
    exact merges
  obtain ⟨merged,done,after⟩ := mergeDeltas_ok listed distinct own each
  rw [deltaRows_next permI permD] at after
  refine ⟨_,?_,(after.filter fun row => !allCountStatesZero mv row).of_perm
    (perm_insertionSort (fun a b => a.rowId ≤ b.rowId) _).symm⟩
  rw [mergeAggregateStateBatches, loaded]
  change (mergeDeltas mv old _ >>= _) = _
  rw [done]
  rfl

end

end

end NovaRocks.Mv
