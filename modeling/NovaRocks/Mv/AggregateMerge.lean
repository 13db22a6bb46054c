import Mathlib.Algebra.BigOperators.Group.List.Basic
import NovaRocks.Mv.AggregateState

/-!
The states against the aggregation of rows. Adding the states of inserted rows gives
the states of all rows. Adding the negated states of deleted rows gives the states of
the rows that are left, but for one thing: a sum whose last input that is not NULL was
deleted becomes zero, not NULL.
-/
namespace NovaRocks.Mv
open NovaRocks.Store NovaRocks.Lake List
open AggregateCallShape (stateColumns stateCount)

section
variable {B : Type}

/-- The inputs of a sum that are not NULL are added up; without any the sum is NULL. -/
def sumOf (input : B → Option Int) (rows : List B) : Option Int :=
  if rows.filterMap input = [] then none else some (rows.filterMap input).sum

theorem sumOf_perm {input : B → Option Int} (perm : first.Perm second) :
    sumOf input first = sumOf input second := by
  have inputs := perm.filterMap input
  have empty : first.filterMap input = [] ↔ second.filterMap input = [] := by
    rw [← length_eq_zero_iff, ← length_eq_zero_iff, inputs.length_eq]
  simp only [sumOf, empty, inputs.sum_eq]

namespace AggregateStateColumn

section
variable (column : AggregateStateColumn B)

def value (rows : List B) : Option Int :=
  match column.kind with
  | .count _ counted => some (rows.countP counted : Nat)
  | .sum _ input => sumOf input rows

def limit (column : AggregateStateColumn B) : Int :=
  match column.kind with
  | .count _ _ => SumType.int64.limit
  | .sum type _ => type.limit

def total (rows : List B) : Int :=
  match column.kind with
  | .count _ counted => (rows.countP counted : Nat)
  | .sum _ input => (rows.filterMap input).sum

def Fits (rows : List B) : Prop :=
  -column.limit ≤ column.total rows ∧ column.total rows < column.limit

def retracted (left deleted : List B) : Option Int :=
  if column.value deleted = none then column.value left else some (column.total left)

/-- Some input is left that is not NULL, unless no such input was deleted. -/
def InputLeft (left deleted : List B) : Prop :=
  match column.kind with
  | .count _ _ => True
  | .sum _ input => left.filterMap input = [] → deleted.filterMap input = []

end

variable {column : AggregateStateColumn B} {first second rows left deleted : List B}

theorem value_perm (perm : first.Perm second) : column.value first = column.value second := by
  unfold value
  cases column.kind with
  | count star counted => simp only [perm.countP_eq]
  | sum type input => exact sumOf_perm perm

theorem total_append (first second : List B) :
    column.total (first ++ second) = column.total first + column.total second := by
  unfold total
  cases column.kind with
  | count | sum => simp

theorem total_perm (perm : first.Perm second) : column.total first = column.total second := by
  unfold total
  cases column.kind with
  | count star counted => simp only [perm.countP_eq]
  | sum type input => exact (perm.filterMap input).sum_eq

theorem value_nil : column.value [] = zeroStateValue column := by
  cases column.kind with
  | count | sum => rfl

theorem value_cases (column : AggregateStateColumn B) (rows : List B) :
    (column.value rows = none ∧ column.total rows = 0 ∧ column.isCount = false) ∨
      column.value rows = some (column.total rows) := by
  unfold value total isCount
  cases column.kind with
  | count star counted => exact .inr rfl
  | sum type input => by_cases empty : rows.filterMap input = [] <;> simp [sumOf, empty]

theorem value_append_none (first second : List B) :
    column.value (first ++ second) = none ↔ column.value first = none ∧ column.value second = none := by
  unfold value
  cases column.kind with
  | count star counted => simp
  | sum type input => simp [sumOf]

theorem value_append_some (first second : List B)
    (some' : column.value first ≠ none ∨ column.value second ≠ none) :
    column.value (first ++ second) = some (column.total first + column.total second) := by
  rw [← total_append]
  refine (column.value_cases (first ++ second)).resolve_left fun ⟨none',_⟩ => ?_
  obtain ⟨noFirst,noSecond⟩ := (column.value_append_none first second).mp none'
  exact some'.elim (fun own => own noFirst) fun own => own noSecond

theorem mergeStateValue_cases :
    mergeStateValue column a b = match a, b with
      | some a, some b => checkedAdd column.limit column.name a b
      | some a, none => if column.isCount then .error ("aggregate MV state corruption: COUNT state column `" ++
          column.name ++ "` is NULL") else .ok (some a)
      | none, b => if column.isCount then .error ("aggregate MV state corruption: COUNT state column `" ++
          column.name ++ "` is NULL") else .ok b := by
  unfold mergeStateValue limit isCount
  cases column.kind <;> cases a <;> cases b <;> rfl

theorem checkedAdd_fits (fits : column.Fits rows) (same : a + b = column.total rows) :
    checkedAdd column.limit column.name a b = .ok (some (column.total rows)) := by
  rw [checkedAdd, same]
  exact if_pos fits

theorem merge_inserted (fits : column.Fits (first ++ second)) :
    mergeStateValue column (column.value first) (column.value second) =
      .ok (column.value (first ++ second)) := by
  rw [mergeStateValue_cases]
  rcases column.value_cases first with ⟨none1,zero1,notCount⟩ | some1 <;>
    rcases column.value_cases second with ⟨none2,zero2,notCount'⟩ | some2
  · simp [none1, none2, notCount, (column.value_append_none first second).mpr ⟨none1,none2⟩]
  · have whole := column.value_append_some first second (.inr (by simp [some2]))
    simp [none1, some2, notCount, whole, zero1]
  · have whole := column.value_append_some first second (.inl (by simp [some1]))
    simp [some1, none2, notCount', whole, zero2]
  · rw [some1, some2, value_append_some _ _ (.inl (by simp [some1])), ← total_append]
    exact checkedAdd_fits fits (column.total_append first second).symm

theorem merge_deleted (fits : column.Fits left) (balance : (left ++ deleted).Perm rows) :
    mergeStateValue column (column.value rows) ((column.value deleted).map Neg.neg) =
      .ok (column.retracted left deleted) := by
  rw [mergeStateValue_cases, retracted, ← column.value_perm balance]
  rcases column.value_cases deleted with ⟨none',zero,notCount⟩ | some'
  · have same : column.value (left ++ deleted) = column.value left := by
      rcases column.value_cases left with ⟨noneLeft,_,_⟩ | someLeft
      · rw [noneLeft]
        exact (column.value_append_none left deleted).mpr ⟨noneLeft,none'⟩
      · rw [value_append_some _ _ (.inl (by simp [someLeft])), someLeft, zero, Int.add_zero]
    rw [none', same, if_pos rfl]
    cases column.value left with
    | none | some => simp [notCount]
  · rw [value_append_some _ _ (.inr (by simp [some'])), some', if_neg (by simp)]
    exact checkedAdd_fits fits (by omega)

theorem retracted_eq_value_iff :
    column.retracted left deleted = column.value left ↔ column.InputLeft left deleted := by
  unfold retracted value total InputLeft
  cases column.kind with
  | count star counted => simp
  | sum type input => by_cases noneDeleted : deleted.filterMap input = [] <;> simp [sumOf, noneDeleted]

end AggregateStateColumn

/-! Rows of groups. -/

def callValue (mv : AggregateMv B) (rows : List B) (call : AggregateCallShape B) : Value :=
  match call.function with
  | .countStar => .int rows.length
  | .count counted => .int (rows.countP counted : Nat)
  | .sum _ input => stateCell (sumOf input rows)
  | .avg type input =>
    match sumOf input rows with
    | none => .null
    | some sum => mv.average type sum (rows.countP fun b => (input b).isSome : Nat)

namespace AggregateMv

def states (mv : AggregateMv B) (rows : List B) : List (Option Int) :=
  mv.stateColumns.map fun column => column.value rows

def groupRow (mv : AggregateMv B) (group : Tuple) (rows : List B) : AggregatePhysicalRow :=
  ⟨mv.encode group, group ++ mv.aggregates.map (callValue mv rows), mv.states rows⟩

end AggregateMv

def CountsSet (states : AggregateStateColumn B → Option Int) : Prop :=
  ∀ column, column.isCount → (states column).isSome

theorem countsSet_value (rows : List B) : CountsSet fun column => column.value rows := by
  intro column isCount
  rcases column.value_cases rows with ⟨_,_,notCount⟩ | some'
  · cases isCount.symm.trans notCount
  · simp only [some', Option.isSome_some]

theorem countsSet_retracted (left deleted : List B) :
    CountsSet fun column => column.retracted left deleted := by
  intro column isCount
  dsimp only [AggregateStateColumn.retracted]
  split
  · exact countsSet_value left column isCount
  · rfl

section
variable {mv : AggregateMv B} {states : AggregateStateColumn B → Option Int}

theorem deriveCallVisible_succeeds (set : CountsSet states) (call : AggregateCallShape B) (idx : Nat) :
    ∃ value, deriveCallVisible mv call ((call.stateColumns idx).map states) = .ok value := by
  cases function : call.function with
  | countStar | count | sum => simp [deriveCallVisible, stateColumns, function]
  | avg type input =>
    obtain ⟨count,isSet⟩ := Option.isSome_iff_exists.mp (set ⟨call.stateName ++ "__count",idx,false,
      .count false fun b => (input b).isSome⟩ rfl)
    simp only [deriveCallVisible, stateColumns, function, map_cons,
      map_nil, isSet, deriveAvgVisible]
    split
    · exact ⟨_,rfl⟩
    · cases states ⟨call.stateName ++ "__sum",idx,false,.sum type input⟩ with
      | none | some => exact ⟨_,rfl⟩

theorem stateColumns_length (call : AggregateCallShape B) (idx : Nat) :
    (call.stateColumns idx).length = call.stateCount := by
  cases function : call.function <;>
    simp [stateColumns, stateCount, function]

theorem deriveVisible_cons (call : AggregateCallShape B) (calls : List (AggregateCallShape B)) (n : Nat)
    (states : AggregateStateColumn B → Option Int) :
    deriveVisible mv (call :: calls) ((((call :: calls).zipIdx n).flatMap fun (call, idx) =>
        call.stateColumns idx).map states) = do
      let value ← deriveCallVisible mv call ((call.stateColumns n).map states)
      let rest ← deriveVisible mv calls (((calls.zipIdx (n + 1)).flatMap fun (call, idx) =>
        call.stateColumns idx).map states)
      return value :: rest := by
  have own : ((call.stateColumns n).map states).length = call.stateCount := by
    rw [length_map, stateColumns_length]
  rw [zipIdx_cons, flatMap_cons, map_append, deriveVisible, ← own, take_left, drop_left]

theorem deriveVisible_succeeds (set : CountsSet states) (calls : List (AggregateCallShape B)) (n : Nat) :
    ∃ values, deriveVisible mv calls (((calls.zipIdx n).flatMap fun (call, idx) =>
      call.stateColumns idx).map states) = .ok values ∧ values.length = calls.length := by
  induction calls generalizing n with
  | nil => exact ⟨[],rfl,rfl⟩
  | cons call calls ih =>
    obtain ⟨values,done,length⟩ := ih (n + 1)
    obtain ⟨value,first⟩ := @deriveCallVisible_succeeds B mv states set call n
    refine ⟨value :: values,?_,by rw [length_cons, length, length_cons]⟩
    rw [deriveVisible_cons, first, done]
    rfl

theorem deriveCallVisible_value (rows : List B) (call : AggregateCallShape B) (idx : Nat) :
    deriveCallVisible mv call ((call.stateColumns idx).map fun column => column.value rows) =
      .ok (callValue mv rows call) := by
  cases function : call.function with
  | countStar | count =>
    simp [deriveCallVisible, stateColumns, function, callValue,
      AggregateStateColumn.value, stateCell]
  | sum type input =>
    simp [deriveCallVisible, stateColumns, function, callValue,
      AggregateStateColumn.value]
  | avg type input =>
    simp only [deriveCallVisible, stateColumns, function, callValue, map_cons,
      AggregateStateColumn.value, deriveAvgVisible, ← length_filterMap_eq_countP]
    by_cases empty : rows.filterMap input = [] <;> simp [sumOf, empty]

theorem deriveVisible_value (rows : List B) (calls : List (AggregateCallShape B)) (n : Nat) :
    deriveVisible mv calls (((calls.zipIdx n).flatMap fun (call, idx) =>
      call.stateColumns idx).map fun column => column.value rows) =
      .ok (calls.map (callValue mv rows)) := by
  induction calls generalizing n with
  | nil => rfl
  | cons call calls ih =>
    rw [deriveVisible_cons, deriveCallVisible_value, ih (n + 1)]
    rfl

theorem callValue_perm (perm : first.Perm second) (call : AggregateCallShape B) :
    callValue mv first call = callValue mv second call := by
  unfold callValue
  cases call.function with
  | countStar => simp only [perm.length_eq]
  | count counted => simp only [perm.countP_eq]
  | sum type input => simp only [sumOf_perm perm]
  | avg type input => simp only [sumOf_perm perm, perm.countP_eq]

theorem groupRow_perm (perm : first.Perm second) (group : Tuple) :
    mv.groupRow group first = mv.groupRow group second := by
  have values : callValue mv first = callValue mv second := funext fun call => callValue_perm perm call
  have states : mv.states first = mv.states second :=
    map_congr_left fun column _ => column.value_perm perm
  rw [AggregateMv.groupRow, values, states]
  rfl

/-! Loaded rows are valid. -/

theorem validateStates_ok {columns : List (AggregateStateColumn B × Option Int)}
    (each : ∀ p ∈ columns, validateState lenient row p.1 p.2 = .ok ()) :
    validateStates lenient row columns = .ok () := by
  induction columns with
  | nil => rfl
  | cons p rest ih =>
    rw [forall_mem_cons] at each
    rw [validateStates, each.1]
    exact ih each.2

/-- A row of the layout's shape, with the row id of its group. -/
structure WellShaped (mv : AggregateMv B) (group : Tuple) (row : AggregatePhysicalRow) : Prop where
  typed : mv.Typed group
  rowId : row.rowId = mv.encode group
  visible : row.visible.length = mv.visibleCount
  state : row.state.length = mv.stateColumns.length
  group : row.visible.take mv.groupCount = group

variable {group : Tuple}

theorem WellShaped.validate (shaped : WellShaped mv group row)
    (each : ∀ p ∈ mv.stateColumns.zip row.state, validateState lenient row p.1 p.2 = .ok ()) :
    validateLoadedPhysicalRow mv lenient row = .ok () := by
  simp [validateLoadedPhysicalRow, guardThat, shaped.visible, shaped.state, shaped.group, shaped.rowId,
    validateStates_ok each, bind, Except.bind]

variable {columns : List (AggregateStateColumn B)}

theorem zip_states : columns.zip (columns.map states) = columns.map fun column => (column, states column) := by
  simpa using zip_map' (f := id) (g := states) (l := columns)

theorem WellShaped.validate_lenient (shaped : WellShaped mv group row)
    (own : row.state = mv.stateColumns.map states) (set : CountsSet states) :
    validateLoadedPhysicalRow mv true row = .ok () := by
  apply shaped.validate
  rw [own, zip_states, forall_mem_map]
  intro column _
  unfold validateState
  cases kind : column.kind with
  | sum type input => rfl
  | count star counted =>
    obtain ⟨count,isSet⟩ := Option.isSome_iff_exists.mp
      (set column (by simp [AggregateStateColumn.isCount, kind]))
    rw [isSet]
    rfl

variable {rows : List B}

theorem callValue_of_single (member : column ∈ call.stateColumns idx) (single : column.single) :
    column.visibleSourceIndex = idx ∧ callValue mv rows call = stateCell (column.value rows) := by
  unfold stateColumns at member
  cases function : call.function with
  | countStar | count =>
    simp only [function, mem_singleton] at member
    subst member
    simp [callValue, function, AggregateStateColumn.value, stateCell]
  | sum type input =>
    simp only [function, mem_singleton] at member
    subst member
    simp [callValue, function, AggregateStateColumn.value]
  | avg type input =>
    simp only [function, mem_cons, not_mem_nil, or_false] at member
    rcases member with rfl | rfl <;> cases single

theorem groupRow_visible (length : group.length = mv.groupCount)
    (member : column ∈ mv.stateColumns) (single : column.single) :
    (mv.groupRow group rows).visible.getD column.visibleSourceIndex .null =
      stateCell (column.value rows) := by
  obtain ⟨⟨call,idx⟩,listed,own⟩ := mem_flatMap.mp member
  obtain ⟨sameIdx,value⟩ := @callValue_of_single B mv rows column idx call own single
  obtain ⟨after,here⟩ := mem_zipIdx_iff_le_and_getElem?_sub.mp listed
  have at' : (mv.groupRow group rows).visible[idx]? = some (callValue mv rows call) := by
    rw [AggregateMv.groupRow, getElem?_append_right (by omega), length, getElem?_map, here]
    rfl
  rw [sameIdx, getD_eq_getElem?_getD, at', ← value]
  rfl

theorem AggregateMv.Typed.length (typed : mv.Typed group) : group.length = mv.groupCount :=
  (Forall₂.length_eq typed).symm

theorem groupRow_shaped (typed : mv.Typed group) (rows : List B) :
    WellShaped mv group (mv.groupRow group rows) where
  typed := typed
  rowId := rfl
  visible := by simp [AggregateMv.groupRow, AggregateMv.visibleCount, typed.length]
  state := by simp [AggregateMv.groupRow, AggregateMv.states]
  group := by simp [AggregateMv.groupRow, ← typed.length]

theorem star_counts_all {counted : B → Bool} (member : column ∈ mv.stateColumns)
    (star : column.kind = .count true counted) : counted = fun _ => true := by
  obtain ⟨⟨call,idx⟩,_,own⟩ := mem_flatMap.mp member
  unfold stateColumns at own
  cases function : call.function with
  | countStar =>
    simp only [function, mem_singleton] at own
    subst own
    cases star
    rfl
  | count | sum =>
    simp only [function, mem_singleton] at own
    subst own
    cases star
  | avg type input =>
    simp only [function, mem_cons, not_mem_nil, or_false] at own
    rcases own with rfl | rfl <;> cases star

theorem validateLoadedCountState_ok {counted : B → Bool} (member : column ∈ mv.stateColumns)
    {star : Bool} (kind : column.kind = .count star counted) (some' : rows ≠ []) (name rowId : String) :
    validateLoadedCountState name rowId star false (column.value rows) = .ok () := by
  have value : column.value rows = some ((rows.countP counted : Nat) : Int) := by
    simp only [AggregateStateColumn.value, kind]
  rw [value]
  unfold validateLoadedCountState
  by_cases positive : 0 < rows.countP counted
  · simp [positive]
  · cases star with
    | true =>
      rw [star_counts_all member kind] at positive
      exact (some' (by simpa using positive)).elim
    | false =>
      have zero : rows.countP counted = 0 := by omega
      simp [zero]

theorem groupRow_valid (typed : mv.Typed group)
    (some' : rows ≠ []) : validateLoadedPhysicalRow mv false (mv.groupRow group rows) = .ok () := by
  apply (groupRow_shaped typed rows).validate
  change ∀ p ∈ mv.stateColumns.zip (mv.stateColumns.map fun column => column.value rows), _
  rw [zip_states, forall_mem_map]
  intro column inside
  have single : (false || !column.single || (mv.groupRow group rows).visible.getD column.visibleSourceIndex
      .null = stateCell (column.value rows)) = true := by
    cases isSingle : column.single with
    | false => rfl
    | true =>
      rw [groupRow_visible typed.length inside isSingle]
      simp
  unfold validateState
  dsimp only
  rw [guardThat, single]
  cases kind : column.kind with
  | sum type input => rfl
  | count star counted =>
    dsimp only
    rw [validateLoadedCountState_ok inside kind some']
    rfl

/-! Merging rows. -/

theorem mergeStates_ok (each : ∀ column ∈ columns, mergeStateValue column (olds column) (deltas column) =
      .ok (merged column)) :
    mergeStates columns (columns.map olds) (columns.map deltas) = .ok (columns.map merged) := by
  induction columns with
  | nil => rfl
  | cons column rest ih =>
    rw [forall_mem_cons] at each
    rw [map_cons, map_cons, mergeStates, each.1]
    rw [ih each.2]
    rfl

theorem mergeRow_ok (shaped : WellShaped mv group row)
    (own : row.state = mv.stateColumns.map olds) (added : delta.state = mv.stateColumns.map deltas)
    (each : ∀ column ∈ mv.stateColumns, mergeStateValue column (olds column) (deltas column) =
      .ok (merged column)) (set : CountsSet merged) :
    ∃ values, deriveVisible mv mv.aggregates (mv.stateColumns.map merged) = .ok values ∧
      mergeRow mv row delta = .ok ⟨mv.encode group, group ++ values, mv.stateColumns.map merged⟩ := by
  obtain ⟨values,derived,_⟩ := @deriveVisible_succeeds B mv merged set mv.aggregates mv.groupCount
  change deriveVisible mv mv.aggregates (mv.stateColumns.map merged) = _ at derived
  have states := mergeStates_ok each
  rw [← own, ← added] at states
  simp [mergeRow, guardThat, shaped.visible, shaped.state, states, updateVisibleValuesFromState, derived,
    shaped.group, shaped.rowId, bind, Except.bind, pure, Except.pure]

theorem zeroBaseRow_shaped
    (shaped : WellShaped mv group delta) : WellShaped mv group (zeroBaseRow mv delta) where
  typed := shaped.typed
  rowId := shaped.rowId
  visible := shaped.visible
  state := by simp [zeroBaseRow]
  group := shaped.group

theorem zeroBaseRow_state (delta : AggregatePhysicalRow) : (zeroBaseRow mv delta).state = mv.states [] := by
  apply map_congr_left
  intro column _
  exact column.value_nil.symm

theorem mergeDeltas_ok {next : AggregatePhysicalRow → AggregatePhysicalRow}
    (listed : Listed AggregatePhysicalRow.rowId merged m)
    (distinct : (deltas.map AggregatePhysicalRow.rowId).Nodup)
    (own : ∀ delta ∈ deltas, (next delta).rowId = delta.rowId)
    (each : ∀ delta ∈ deltas, mergeRow mv ((m delta.rowId).getD (zeroBaseRow mv delta)) delta =
      .ok (next delta)) :
    ∃ merged', mergeDeltas mv merged deltas = .ok merged' ∧ Listed AggregatePhysicalRow.rowId merged'
        (putAll AggregatePhysicalRow.rowId m (deltas.map next)) := by
  induction deltas generalizing merged m with
  | nil => exact ⟨merged,rfl,listed⟩
  | cons delta rest ih =>
    obtain ⟨notLater,restDistinct⟩ := nodup_cons.mp distinct
    have ownId := own delta mem_cons_self
    have merges := each delta mem_cons_self
    obtain ⟨merged',step,after⟩ : ∃ merged', mergeDelta mv merged delta = .ok merged' ∧
        Listed AggregatePhysicalRow.rowId merged' (put AggregatePhysicalRow.rowId m (next delta)) := by
      unfold mergeDelta
      rw [listed.find]
      cases held : m delta.rowId with
      | some row =>
        rw [held, Option.getD_some] at merges
        have after := listed.replace (v := next delta) (by rw [ownId, held])
        rw [ownId] at after
        dsimp only
        rw [merges]
        exact ⟨_,rfl,after⟩
      | none =>
        rw [held, Option.getD_none] at merges
        rw [merges]
        exact ⟨_,rfl,listed.add (by rw [ownId, held])⟩
    have untouched : ∀ d ∈ rest, put AggregatePhysicalRow.rowId m (next delta) d.rowId = m d.rowId := by
      intro d member
      have other : d.rowId ≠ (next delta).rowId := by
        rw [ownId]
        exact fun same => notLater (same ▸ mem_map_of_mem member)
      exact Function.update_of_ne other _ _
    obtain ⟨final,done,result⟩ := ih after restDistinct (fun d member => own d (mem_cons_of_mem _ member))
      (fun d member => by rw [untouched d member]; exact each d (mem_cons_of_mem _ member))
    refine ⟨final,?_,result⟩
    rw [mergeDeltas, step]
    exact done

/-! Negation and loading. -/

def negatedRow (mv : AggregateMv B) (group : Tuple) (rows : List B) : AggregatePhysicalRow :=
  { mv.groupRow group rows with
    state := mv.stateColumns.map fun column => (column.value rows).map Neg.neg }

theorem negateStates_iff :
    negateStates columns (columns.map states) = .ok result ↔
      (∀ column ∈ columns, states column ≠ some (-column.limit)) ∧
        result = columns.map fun column => (states column).map Neg.neg := by
  have value : ∀ (column : AggregateStateColumn B) (state : Option Int),
      negateStateValue column state = if state = some (-column.limit) then
        .error ("negate state column `" ++ column.name ++ "`: overflow") else .ok (state.map Neg.neg) := by
    intro column state
    cases state with
    | none => simp [negateStateValue]
    | some v => cases kind : column.kind <;> simp [negateStateValue, AggregateStateColumn.limit, kind]
  induction columns generalizing result with
  | nil => simp [negateStates]
  | cons column rest ih =>
    rw [map_cons, negateStates, value]
    by_cases least : states column = some (-column.limit)
    · simp [least, bind, Except.bind]
    · rw [if_neg least]
      constructor
      · intro done
        obtain ⟨_,isValue,later⟩ := bind_ok done
        cases isValue
        obtain ⟨values,others,last⟩ := bind_ok later
        cases last
        obtain ⟨restOk,rfl⟩ := ih.mp others
        exact ⟨forall_mem_cons.mpr ⟨least,restOk⟩,rfl⟩
      · rintro ⟨ok,rfl⟩
        rw [ih.mpr ⟨(forall_mem_cons.mp ok).2,rfl⟩]
        rfl

theorem negateAggregateStateRows_iff {groups : List Tuple} {members : Tuple → List B} :
    negateAggregateStateRows mv (groups.map fun g => mv.groupRow g (members g)) = .ok result ↔
      (∀ g ∈ groups, ∀ column ∈ mv.stateColumns, column.value (members g) ≠ some (-column.limit)) ∧
        result = groups.map fun g => negatedRow mv g (members g) := by
  induction groups generalizing result with
  | nil => simp [negateAggregateStateRows]
  | cons g rest ih =>
    constructor
    · intro done
      obtain ⟨states,first,later⟩ := bind_ok done
      obtain ⟨rows,others,last⟩ := bind_ok later
      cases last
      obtain ⟨ok,rfl⟩ := negateStates_iff.mp first
      obtain ⟨restOk,rfl⟩ := ih.mp others
      exact ⟨forall_mem_cons.mpr ⟨ok,restOk⟩,rfl⟩
    · rintro ⟨ok,rfl⟩
      obtain ⟨first,restOk⟩ := forall_mem_cons.mp ok
      change (negateStates mv.stateColumns (mv.stateColumns.map fun column => column.value (members g)) >>=
        _) = _
      rw [negateStates_iff.mpr ⟨first,rfl⟩]
      rw [ih.mpr ⟨restOk,rfl⟩]
      rfl

theorem loadRows_iff {rows loaded result : List AggregatePhysicalRow}
    (valid : ∀ row ∈ rows, validateLoadedPhysicalRow mv lenient row = .ok ()) :
    loadRows mv lenient loaded rows = .ok result ↔ (rows.map AggregatePhysicalRow.rowId).Nodup ∧
        (∀ other ∈ loaded, ∀ row ∈ rows, other.rowId ≠ row.rowId) ∧ result = loaded ++ rows := by
  induction rows generalizing loaded with
  | nil => simp [loadRows, eq_comm]
  | cons row rest ih =>
    have restValid := fun r member => valid r (mem_cons_of_mem _ member)
    rw [loadRows, valid row mem_cons_self]
    by_cases new : ∀ other ∈ loaded, other.rowId ≠ row.rowId
    · have passes : (loaded.all fun other => other.rowId ≠ row.rowId) = true := by simpa using new
      rw [guardThat, if_pos passes]
      change loadRows mv lenient (loaded ++ [row]) rest = _ ↔ _
      rw [ih restValid]
      simp only [map_cons, nodup_cons, mem_map, forall_mem_append, forall_mem_cons, append_assoc]
      constructor
      · rintro ⟨nodup,⟨before,own,_⟩,rfl⟩
        refine ⟨⟨?_,nodup⟩,fun other member => ⟨new other member,before other member⟩,rfl⟩
        rintro ⟨r,member,same⟩
        exact own r member same.symm
      · rintro ⟨⟨notLater,nodup⟩,before,rfl⟩
        exact ⟨nodup,⟨fun other member => (before other member).2,
          fun r member same => notLater ⟨r,member,same.symm⟩,by simp⟩,rfl⟩
    · have fails : ¬ (loaded.all fun other => other.rowId ≠ row.rowId) = true := by simpa using new
      rw [guardThat, if_neg fails]
      constructor
      · intro done
        cases done
      · rintro ⟨_,before,_⟩
        exact (new fun other member => before other member row mem_cons_self).elim

end

end

end NovaRocks.Mv
