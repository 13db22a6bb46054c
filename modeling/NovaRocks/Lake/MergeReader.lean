import Mathlib.Algebra.Order.Ring.Int
import Mathlib.Data.List.Basic
import Mathlib.Data.List.Induction

/-!
Reading a UNIQUE or AGGREGATE tablet with pushed-down min/max predicates. Segments
and pages whose zone maps exclude a predicate are left out first; the rows that are
left are merged by key, in the order of the rowsets.
-/
namespace NovaRocks.Reader
open List

inductive PredicateOp
  | le
  | lt
  | ge
  | gt
  | eq
deriving DecidableEq

inductive AggOp
  | sum
  | min
  | max
  | replace
  | replaceIfNotNull
  | bitmapUnion
  | hllUnion
  | percentileUnion

section
variable {ν : Type} [LinearOrder ν]

def cellAt (row : List (Option ν)) (column : Nat) : Option ν :=
  row[column]?.join

structure MinMaxPredicate (ν : Type) where
  column : Nat
  op : PredicateOp
  value : ν

def PredicateOp.holds : PredicateOp → ν → ν → Bool
  | .le, cell, value => cell ≤ value
  | .lt, cell, value => cell < value
  | .ge, cell, value => value ≤ cell
  | .gt, cell, value => value < cell
  | .eq, cell, value => cell = value

/-- NULL does not satisfy a predicate. -/
def MinMaxPredicate.admits (predicate : MinMaxPredicate ν) (cell : Option ν) : Bool :=
  cell.any fun cell => predicate.op.holds cell predicate.value

def MinMaxPredicate.satisfiedBy (predicate : MinMaxPredicate ν) (row : List (Option ν)) : Bool :=
  predicate.admits (cellAt row predicate.column)

def rangeMayMatch : PredicateOp → ν → ν → ν → Bool
  | .le, min, _, value => min ≤ value
  | .lt, min, _, value => min < value
  | .ge, _, max, value => value ≤ max
  | .gt, _, max, value => value < max
  | .eq, min, max, value => min ≤ value && value ≤ max

/-- A bound that is missing or does not parse is `none`. -/
structure ZoneMap (ν : Type) where
  hasNotNull : Bool
  min : Option ν
  max : Option ν

def ZoneMap.maySatisfy (zone : ZoneMap ν) (predicate : MinMaxPredicate ν) : Bool :=
  if !zone.hasNotNull then false
  else match zone.min, zone.max with
    | some min, some max => rangeMayMatch predicate.op min max predicate.value
    | _, _ => true

def ZoneMap.Bounds (zone : ZoneMap ν) (cell : ν) : Prop :=
  zone.hasNotNull = true ∧ (∀ min ∈ zone.min, min ≤ cell) ∧ ∀ max ∈ zone.max, cell ≤ max

/-- A data page of a column: its number of rows and what its indexes say. -/
structure Page (ν : Type) where
  rows : Nat
  zone : Option (ZoneMap ν)
  bloom : Option (ν → Bool)

def Page.maySatisfy (page : Page ν) (predicate : MinMaxPredicate ν) : Bool :=
  page.zone.all (·.maySatisfy predicate) &&
    (predicate.op ≠ .eq || page.bloom.all (· predicate.value))

def Page.Bounds (page : Page ν) (cell : ν) : Prop :=
  (∀ zone ∈ page.zone, zone.Bounds cell) ∧ ∀ bloom ∈ page.bloom, bloom cell = true

def pageAt : List (Page ν) → Nat → Option (Page ν)
  | [], _ => none
  | page :: pages, row => if row < page.rows then some page else pageAt pages (row - page.rows)

/-- `bound` says that a predicate on the column is used at all: the column is
projected, stored in this segment and no flat JSON path. -/
structure ColumnMeta (ν : Type) where
  bound : Bool
  segmentZone : Option (ZoneMap ν)
  pages : Option (List (Page ν))

structure Segment (ν : Type) [LinearOrder ν] where
  rows : List (List (Option ν))
  columns : Nat → ColumnMeta ν
  bounded : ∀ column, ∀ zone ∈ (columns column).segmentZone, ∀ row ∈ rows, ∀ cell ∈ cellAt row column,
    zone.Bounds cell
  paged : ∀ column, ∀ pages ∈ (columns column).pages, ∀ (index : Nat) row, rows[index]? = some row →
    ∀ cell ∈ cellAt row column, ∃ page, pageAt pages index = some page ∧ page.Bounds cell

def Segment.mayMatch (segment : Segment ν) (predicates : List (MinMaxPredicate ν)) : Bool :=
  predicates.all fun predicate => !(segment.columns predicate.column).bound ||
    (segment.columns predicate.column).segmentZone.all (·.maySatisfy predicate)

/-- Is the row in the ranges of every predicate that has a page index? -/
def Segment.selects (segment : Segment ν) (predicates : List (MinMaxPredicate ν)) (index : Nat) : Bool :=
  predicates.all fun predicate => !(segment.columns predicate.column).bound ||
    (segment.columns predicate.column).pages.all fun pages =>
      (pageAt pages index).any (·.maySatisfy predicate)

def Segment.read (predicates : List (MinMaxPredicate ν)) (segment : Segment ν) : List (List (Option ν)) :=
  if segment.mayMatch predicates then
    (segment.rows.zipIdx.filter fun row => segment.selects predicates row.2).map Prod.fst
  else []

def Segment.marks (predicates : List (MinMaxPredicate ν)) (segment : Segment ν) :
    List (List (Option ν) × Bool) :=
  segment.rows.zipIdx.map fun row =>
    (row.1, segment.mayMatch predicates && segment.selects predicates row.2)

/-- The key columns of a tablet, and for each column how its cells are merged: key
columns are not. In a UNIQUE tablet every value column is replaced. -/
structure MergeReader (ν : Type) where
  keyColumns : List Nat
  ops : List (Option AggOp)
  combine : AggOp → ν → ν → ν
  keys_kept : ∀ column ∈ keyColumns, ops[column]?.join = none

namespace MergeReader
variable (reader : MergeReader ν)

def mergeCell (op : AggOp) (state incoming : Option ν) : Option ν :=
  match op, state, incoming with
  | .replace, _, incoming => incoming
  | _, state, none => state
  | .replaceIfNotNull, _, incoming => incoming
  | _, none, incoming => incoming
  | op, some state, some incoming => some (reader.combine op state incoming)

def mergeCells : List (Option AggOp) → List (Option ν) → List (Option ν) → List (Option ν)
  | op :: ops, state :: states, cell :: cells =>
    (op.elim state fun op => reader.mergeCell op state cell) :: mergeCells ops states cells
  | _, states, _ => states

def keyOf (row : List (Option ν)) : List (Option ν) :=
  reader.keyColumns.map (cellAt row)

def addRow (groups : List (List (Option ν) × List (Option ν))) (row : List (Option ν)) :
    List (List (Option ν) × List (Option ν)) :=
  if groups.any (·.1 = reader.keyOf row) then
    groups.map fun group =>
      if group.1 = reader.keyOf row then (group.1, reader.mergeCells reader.ops group.2 row) else group
  else groups ++ [(reader.keyOf row, row)]

def aggregate (rows : List (List (Option ν))) : List (List (Option ν) × List (Option ν)) :=
  rows.foldl reader.addRow []

def answer (predicates : List (MinMaxPredicate ν)) (rows : List (List (Option ν))) :
    List (List (Option ν) × List (Option ν)) :=
  (reader.aggregate rows).filter fun group => predicates.all (·.satisfiedBy group.2)

/-! What merging gives each key. -/

def merged : List (List (Option ν)) → Option (List (Option ν))
  | [] => none
  | row :: rows => some (rows.foldl (reader.mergeCells reader.ops) row)

def rowsOf (key : List (Option ν)) (rows : List (List (Option ν))) : List (List (Option ν)) :=
  rows.filter fun row => reader.keyOf row = key

variable {reader} {predicates : List (MinMaxPredicate ν)} {segment : Segment ν}

omit [LinearOrder ν] in
theorem merged_append (rows : List (List (Option ν))) (row : List (Option ν)) :
    reader.merged (rows ++ [row]) =
      some ((reader.merged rows).elim row fun state => reader.mergeCells reader.ops state row) := by
  cases rows <;> simp [merged]

theorem mem_aggregate (rows : List (List (Option ν))) (key cells : List (Option ν)) :
    (key, cells) ∈ reader.aggregate rows ↔ reader.merged (reader.rowsOf key rows) = some cells := by
  induction rows using reverseRecOn generalizing key cells with
  | nil => simp [aggregate, rowsOf, merged]
  | append_singleton rows row ih =>
    have known : (reader.aggregate rows).any (·.1 = reader.keyOf row) ↔
        reader.merged (reader.rowsOf (reader.keyOf row) rows) ≠ none := by
      simp [Option.ne_none_iff_exists', ih]
    have step : reader.aggregate (rows ++ [row]) = reader.addRow (reader.aggregate rows) row := by
      simp [aggregate]
    rw [step, addRow]
    by_cases same : reader.keyOf row = key
    · subst same
      have mine : reader.rowsOf (reader.keyOf row) (rows ++ [row]) =
          reader.rowsOf (reader.keyOf row) rows ++ [row] := by simp [rowsOf]
      rw [mine, merged_append]
      cases state : reader.merged (reader.rowsOf (reader.keyOf row) rows) with
      | none =>
        rw [if_neg (by simp [known, state])]
        simp [ih, state, eq_comm]
      | some old =>
        rw [if_pos (known.mpr (by simp [state]))]
        constructor
        · intro member
          obtain ⟨⟨owner,kept⟩,inside,made⟩ := mem_map.mp member
          by_cases here : owner = reader.keyOf row
          · subst here
            rw [ih, state] at inside
            cases inside
            simpa using made
          · rw [if_neg here] at made
            exact absurd (congrArg Prod.fst made) here
        · intro made
          exact mem_map.mpr ⟨_,(ih _ old).mpr state,by simpa using made⟩
    · have others : reader.rowsOf key (rows ++ [row]) = reader.rowsOf key rows := by
        simp [rowsOf, same]
      rw [others, ← ih]
      split
      · constructor
        · intro member
          obtain ⟨group,inside,made⟩ := mem_map.mp member
          split at made
          · exact absurd ((Prod.mk.inj made).1 ▸ ‹group.1 = _›) (Ne.symm same)
          · exact made ▸ inside
        · intro member
          exact mem_map.mpr ⟨_,member,if_neg (Ne.symm same)⟩
      · simp [Ne.symm same]

/-! Pruning leaves out only rows that fail a predicate. -/

theorem ZoneMap.maySatisfy_of_bounds {zone : ZoneMap ν}
    (bounds : zone.Bounds cell) (holds : predicate.op.holds cell predicate.value) :
    zone.maySatisfy predicate := by
  obtain ⟨some',low,high⟩ := bounds
  unfold ZoneMap.maySatisfy
  split
  · simp_all
  · split
    · rename_i min max isMin isMax
      have below := low min isMin
      have above := high max isMax
      cases op : predicate.op <;> simp only [op, PredicateOp.holds, rangeMayMatch, decide_eq_true_eq,
        Bool.and_eq_true] at holds ⊢
      · exact le_trans below holds
      · exact lt_of_le_of_lt below holds
      · exact le_trans holds above
      · exact lt_of_lt_of_le holds above
      · exact holds ▸ ⟨below,above⟩
    · rfl

theorem selects_of_passes (here : segment.rows[index]? = some row)
    (passes : predicates.all (·.satisfiedBy row)) :
    segment.mayMatch predicates ∧ segment.selects predicates index := by
  have cells : ∀ predicate ∈ predicates, ∃ cell, cellAt row predicate.column = some cell ∧
      predicate.op.holds cell predicate.value := by
    intro predicate inside
    simpa [MinMaxPredicate.satisfiedBy, MinMaxPredicate.admits, Option.any_eq_true] using all_eq_true.mp passes predicate inside
  simp only [Segment.mayMatch, Segment.selects, all_eq_true, Bool.or_eq_true, Option.all_eq_true]
  constructor
  · intro predicate inside
    obtain ⟨cell,found,holds⟩ := cells predicate inside
    exact .inr fun zone isZone => ZoneMap.maySatisfy_of_bounds
      (segment.bounded _ zone isZone row (mem_of_getElem? here) cell found) holds
  · intro predicate inside
    obtain ⟨cell,found,holds⟩ := cells predicate inside
    refine .inr fun pages isPages => ?_
    obtain ⟨page,isPage,zone,bloom⟩ := segment.paged _ pages isPages index row here cell found
    simp only [isPage, Option.any_some, Page.maySatisfy, Bool.and_eq_true, Option.all_eq_true,
      Bool.or_eq_true, decide_eq_true_eq]
    refine ⟨fun z isZone => ZoneMap.maySatisfy_of_bounds (zone z isZone) holds,?_⟩
    by_cases eq : predicate.op = .eq
    · simp only [eq, PredicateOp.holds, decide_eq_true_eq] at holds
      exact .inr fun b isBloom => holds ▸ bloom b isBloom
    · exact .inl eq

theorem rows_eq_marks (predicates : List (MinMaxPredicate ν)) (segment : Segment ν) :
    segment.rows = (segment.marks predicates).map Prod.fst := by
  simp [Segment.marks, Function.comp_def, zipIdx_map_fst]

theorem read_eq_marks (predicates : List (MinMaxPredicate ν)) (segment : Segment ν) :
    segment.read predicates = ((segment.marks predicates).filter Prod.snd).map Prod.fst := by
  unfold Segment.read Segment.marks
  rw [filter_map, map_map]
  split <;> simp_all [Function.comp_def]

theorem marks_fail (pruned : (row, false) ∈ segment.marks predicates) :
    ¬ predicates.all (·.satisfiedBy row) := by
  obtain ⟨⟨here,index⟩,inside,made⟩ := mem_map.mp pruned
  obtain ⟨rfl,skipped⟩ := Prod.mk.inj made
  intro passes
  have kept := selects_of_passes (mem_zipIdx_iff_getElem?.mp inside) passes
  simp [kept] at skipped

variable (reader predicates) in
def marksOf (segments : List (Segment ν)) (key : List (Option ν)) : List (List (Option ν) × Bool) :=
  (segments.flatMap (Segment.marks predicates)).filter fun mark => reader.keyOf mark.1 = key

theorem rowsOf_rows (segments : List (Segment ν)) (key : List (Option ν)) :
    reader.rowsOf key (segments.flatMap Segment.rows) =
      (reader.marksOf predicates segments key).map Prod.fst := by
  rw [funext (rows_eq_marks predicates), ← map_flatMap, rowsOf, filter_map]
  rfl

theorem rowsOf_read (segments : List (Segment ν)) (key : List (Option ν)) :
    reader.rowsOf key (segments.flatMap (Segment.read predicates)) =
      ((reader.marksOf predicates segments key).filter Prod.snd).map Prod.fst := by
  rw [funext (read_eq_marks predicates), ← map_flatMap, ← filter_flatMap, rowsOf, filter_map, marksOf,
    filter_filter, filter_filter]
  simp only [Function.comp_def, Bool.and_comm]

variable (reader predicates) in
/-- What a key whose rows are the given ones gives the query. -/
def outcome (rows : List (List (Option ν))) : Option (List (Option ν)) :=
  (reader.merged rows).filter fun cells => predicates.all (·.satisfiedBy cells)

variable (reader predicates) in
/-- The same keyed rows, whether merged from what is read or from everything. -/
def SameRows (segments : List (Segment ν)) : Prop :=
  ∀ group, group ∈ reader.answer predicates (segments.flatMap (Segment.read predicates)) ↔
    group ∈ reader.answer predicates (segments.flatMap Segment.rows)

theorem sameRows_iff (segments : List (Segment ν)) : reader.SameRows predicates segments ↔
    ∀ key, reader.outcome predicates (((reader.marksOf predicates segments key).filter Prod.snd).map Prod.fst) =
      reader.outcome predicates ((reader.marksOf predicates segments key).map Prod.fst) := by
  have mem : ∀ rows key cells, (key, cells) ∈ reader.answer predicates rows ↔
      reader.outcome predicates (reader.rowsOf key rows) = some cells := by
    simp [answer, outcome, mem_aggregate]
  simp only [← rowsOf_read, ← rowsOf_rows]
  constructor
  · intro same key
    apply Option.ext
    intro cells
    rw [← mem, ← mem]
    exact same (key, cells)
  · intro same group
    rw [mem, mem, same group.1]

/-! Cells column by column. -/

variable (reader) in
def mergedCell (op : Option AggOp) (cells : List (Option ν)) : Option ν :=
  match op, cells with
  | _, [] => none
  | none, cell :: _ => cell
  | some op, cell :: cells => cells.foldl (reader.mergeCell op) cell

variable (reader) in
def total (column : Nat) (rows : List (List (Option ν))) : Option ν :=
  reader.mergedCell reader.ops[column]?.join (rows.map (cellAt · column))

variable (reader) in
omit [LinearOrder ν] in
theorem length_mergeCells (ops : List (Option AggOp)) (states cells : List (Option ν)) :
    (reader.mergeCells ops states cells).length = states.length := by
  fun_induction mergeCells reader ops states cells with
  | case1 op ops state states cell cells ih => simp [ih]
  | case2 => rfl

omit [LinearOrder ν] in
theorem cellAt_mergeCells (ops : List (Option AggOp)) (states cells : List (Option ν))
    (same : states.length = cells.length) (column : Nat) :
    cellAt (reader.mergeCells ops states cells) column =
      ops[column]?.join.elim (cellAt states column) fun op =>
        reader.mergeCell op (cellAt states column) (cellAt cells column) := by
  fun_induction mergeCells reader ops states cells generalizing column with
  | case1 op ops state states cell cells ih =>
    cases column with
    | zero => cases op <;> rfl
    | succ column => exact ih (by simpa using same) column
  | case2 ops states cells other =>
    rcases ops with _ | ⟨op,ops⟩
    · rfl
    · rcases states with _ | ⟨state,states⟩ <;> rcases cells with _ | ⟨cell,cells⟩
      · rcases (op :: ops)[column]?.join with _ | (_ | _) <;> rfl
      · cases same
      · cases same
      · exact (other _ _ _ _ _ _ rfl rfl rfl).elim

variable (reader) in
omit [LinearOrder ν] in
theorem foldl_cells (rows : List (List (Option ν))) (row : List (Option ν))
    (width : ∀ other ∈ rows, other.length = row.length) :
    (rows.foldl (reader.mergeCells reader.ops) row).length = row.length ∧
      ∀ column, cellAt (rows.foldl (reader.mergeCells reader.ops) row) column =
        reader.total column (row :: rows) := by
  induction rows generalizing row with
  | nil => exact ⟨rfl,fun column => by cases op : reader.ops[column]?.join <;> simp [total, op, mergedCell]⟩
  | cons next rows ih =>
    rw [forall_mem_cons] at width
    have size := length_mergeCells reader reader.ops row next
    obtain ⟨length,cells⟩ := ih (reader.mergeCells reader.ops row next)
      fun other inside => (width.2 other inside).trans size.symm
    refine ⟨length.trans size,fun column => ?_⟩
    rw [foldl_cons, cells]
    simp only [total, map_cons, cellAt_mergeCells _ _ _ width.1.symm]
    cases op : reader.ops[column]?.join <;> rfl

variable (reader) in
def Shaped (segments : List (Segment ν)) : Prop :=
  ∀ segment ∈ segments, ∀ row ∈ segment.rows, row.length = reader.ops.length

variable (reader predicates) in
theorem outcome_eq {rows : List (List (Option ν))} (some' : rows ≠ [])
    (width : ∀ row ∈ rows, row.length = reader.ops.length) :
    ∃ cells, cells.length = reader.ops.length ∧ (∀ column, cellAt cells column = reader.total column rows) ∧
      reader.outcome predicates rows =
        if ∀ predicate ∈ predicates, predicate.admits (reader.total predicate.column rows) then some cells
        else none := by
  obtain _ | ⟨row,rows⟩ := rows
  · exact (some' rfl).elim
  · rw [forall_mem_cons] at width
    obtain ⟨length,cells⟩ := foldl_cells reader rows row fun other inside =>
      (width.2 other inside).trans width.1.symm
    refine ⟨_,length.trans width.1,cells,?_⟩
    simp [outcome, merged, Option.filter, MinMaxPredicate.satisfiedBy, cells]

omit [LinearOrder ν] in
theorem ext_cellAt {first second : List (Option ν)} (same : first.length = second.length)
    (each : ∀ column, cellAt first column = cellAt second column) : first = second := by
  refine ext_getElem same fun i here there => ?_
  simpa [cellAt, here, there] using each i

variable (reader) in
def Unique : Prop :=
  ∀ column op, reader.ops[column]? = some op → op = some .replace ∨ column ∈ reader.keyColumns

omit [LinearOrder ν] in
theorem total_unique (unique : reader.Unique) (rows : List (List (Option ν))) (newest : List (Option ν))
    (width : ∀ row ∈ rows ++ [newest], row.length = reader.ops.length)
    (keys : ∀ row ∈ rows, reader.keyOf row = reader.keyOf newest) (column : Nat) :
    reader.total column (rows ++ [newest]) = cellAt newest column := by
  cases rows with
  | nil => cases op : reader.ops[column]?.join <;> simp [total, op, mergedCell]
  | cons row rows =>
    cases at' : reader.ops[column]? with
    | none =>
      have beyond : ∀ row : List (Option ν), row.length = reader.ops.length → cellAt row column = none := by
        intro row length
        rw [getElem?_eq_none_iff, ← length] at at'
        simp [cellAt, at']
      simp [total, at', mergedCell, beyond row (width row (by simp)), beyond newest (width newest (by simp))]
    | some op =>
      rcases unique column op at' with rfl | key
      · simp [total, at', mergedCell, mergeCell]
      · have kept := reader.keys_kept column key
        rw [at', Option.join_some] at kept
        simpa [total, at', kept, mergedCell] using map_inj_left.mp (keys row (by simp)) column key

theorem outcome_unique (unique : reader.Unique) {rows : List (List (Option ν))} {newest : List (Option ν)}
    (width : ∀ row ∈ rows ++ [newest], row.length = reader.ops.length)
    (keys : ∀ row ∈ rows, reader.keyOf row = reader.keyOf newest) :
    reader.outcome predicates (rows ++ [newest]) =
      if predicates.all (·.satisfiedBy newest) then some newest else none := by
  obtain ⟨cells,length,totals,made⟩ := outcome_eq reader predicates (append_ne_nil_of_right_ne_nil rows (cons_ne_nil newest [])) width
  have same : cells = newest := ext_cellAt (length.trans (width newest (by simp)).symm) fun column =>
    (totals column).trans (total_unique unique rows newest width keys column)
  rw [made, same]
  simp [total_unique unique rows newest width keys, MinMaxPredicate.satisfiedBy]

/-- Rows of one key, each with whether it is read; those that are not fail a predicate. -/
structure Marked (reader : MergeReader ν) (predicates : List (MinMaxPredicate ν)) (key : List (Option ν))
    (marks : List (List (Option ν) × Bool)) : Prop where
  width : ∀ mark ∈ marks, mark.1.length = reader.ops.length
  keys : ∀ mark ∈ marks, reader.keyOf mark.1 = key
  fails : ∀ row, (row, false) ∈ marks → ¬ predicates.all (·.satisfiedBy row)

variable (predicates) in
theorem marksOf_marked (shaped : reader.Shaped segments) (key : List (Option ν)) :
    reader.Marked predicates key (reader.marksOf predicates segments key) := by
  refine ⟨fun mark inside => ?_,fun mark inside => of_decide_eq_true (mem_filter.mp inside).2,fun row pruned => ?_⟩
  · obtain ⟨segment,known,inside⟩ := mem_flatMap.mp (mem_filter.mp inside).1
    exact shaped segment known mark.1 (rows_eq_marks predicates segment ▸ mem_map_of_mem inside)
  · obtain ⟨segment,_,inside⟩ := mem_flatMap.mp (mem_filter.mp pruned).1
    exact marks_fail inside

variable (predicates) in
/-- Unless the newest row of the key is read, the newest row that is fails a predicate. -/
def NewestKept (marks : List (List (Option ν) × Bool)) : Prop :=
  ∀ newest, marks.getLast? = some (newest, false) →
    ∀ row ∈ (marks.filter Prod.snd).getLast?, ¬ predicates.all (·.satisfiedBy row.1)

variable (reader predicates) in
def Rejected (rows : List (List (Option ν))) : Prop :=
  ∃ predicate ∈ predicates, ¬ predicate.admits (reader.total predicate.column rows)

variable (reader predicates) in
/-- Rows of the key that are not read add nothing to its aggregates, or some predicate fails on
the aggregates of the rows read and some on those of all rows. -/
def AggregatesKept (marks : List (List (Option ν) × Bool)) : Prop :=
  (∃ row, (row, false) ∈ marks) →
    let read := (marks.filter Prod.snd).map Prod.fst
    let all := marks.map Prod.fst
    (read ≠ [] ∧ ∀ column, reader.total column read = reader.total column all) ∨
      (reader.Rejected predicates all ∧ (read = [] ∨ reader.Rejected predicates read))

section
variable {key : List (Option ν)} {marks : List (List (Option ν) × Bool)}

omit [LinearOrder ν] in
theorem filter_of_unpruned (none' : ¬ ∃ row, (row, false) ∈ marks) : marks.filter Prod.snd = marks := by
  rw [filter_eq_self]
  intro mark inside
  cases read : mark.2 with
  | true => rfl
  | false => exact (none' ⟨mark.1,read ▸ inside⟩).elim

variable (marked : reader.Marked predicates key marks)
include marked

theorem Marked.last (unique : reader.Unique) (init : List (List (Option ν) × Bool)) (mark : List (Option ν) × Bool)
    (known : init ++ [mark] ⊆ marks) : reader.outcome predicates ((init ++ [mark]).map Prod.fst) =
      if predicates.all (·.satisfiedBy mark.1) then some mark.1 else none := by
  rw [map_append]
  refine outcome_unique unique ?_ ?_
  · rw [← map_singleton, ← map_append, forall_mem_map]
    exact fun other inside => marked.width other (known inside)
  · rw [forall_mem_map]
    intro other inside
    rw [marked.keys other (known (mem_append_left _ inside)), marked.keys mark (known (by simp))]

theorem unique_right_iff (unique : reader.Unique) :
    reader.outcome predicates ((marks.filter Prod.snd).map Prod.fst) = reader.outcome predicates (marks.map Prod.fst) ↔
      NewestKept predicates marks := by
  rcases eq_nil_or_concat marks with rfl | ⟨init,⟨newest,read⟩,rfl⟩
  · simp [NewestKept]
  rw [concat_eq_append] at *
  rw [marked.last unique init _ (Subset.refl _)]
  cases read with
  | true =>
    have kept : (init ++ [(newest, true)]).filter Prod.snd = init.filter Prod.snd ++ [(newest, true)] := by simp
    rw [kept, marked.last unique _ _ (kept ▸ filter_subset_self _)]
    simp [NewestKept]
  | false =>
    have kept : (init ++ [(newest, false)]).filter Prod.snd = init.filter Prod.snd := by simp
    have inside : init.filter Prod.snd ⊆ init ++ [(newest, false)] := kept ▸ filter_subset_self _
    rw [if_neg (marked.fails newest (by simp)), NewestKept, kept]
    rcases eq_nil_or_concat (init.filter Prod.snd) with none' | ⟨rest,row,some'⟩
    · simp [none', outcome, merged]
    · rw [concat_eq_append] at some'
      rw [some'] at inside ⊢
      rw [marked.last unique rest row inside]
      simp

/-- On key columns the rows of a key are all pruned alike. -/
theorem keyed_right (keyed : ∀ predicate ∈ predicates, predicate.column ∈ reader.keyColumns) :
    reader.outcome predicates ((marks.filter Prod.snd).map Prod.fst) =
      reader.outcome predicates (marks.map Prod.fst) := by
  by_cases pruned : ∃ row, (row, false) ∈ marks
  · obtain ⟨row,skipped⟩ := pruned
    obtain ⟨predicate,listed,fails⟩ : ∃ predicate ∈ predicates, ¬ predicate.satisfiedBy row := by
      simpa using marked.fails row skipped
    have column := keyed predicate listed
    have nothing : ∀ part ⊆ marks, reader.outcome predicates (part.map Prod.fst) = none := by
      rintro (_ | ⟨first,rest⟩) known
      · rfl
      · obtain ⟨_,_,_,made⟩ := outcome_eq reader predicates (cons_ne_nil first.1 (rest.map Prod.fst))
          (forall_mem_map.mpr fun mark inside => marked.width mark (known inside))
        have cell := map_inj_left.mp ((marked.keys first (known mem_cons_self)).trans
          (marked.keys _ skipped).symm) _ column
        rw [map_cons, made, if_neg]
        intro all
        have holds := all predicate listed
        rw [total, reader.keys_kept _ column] at holds
        exact fails (by rwa [MinMaxPredicate.satisfiedBy, ← cell])
    rw [nothing _ (filter_subset_self _), nothing _ (Subset.refl _)]
  · rw [filter_of_unpruned pruned]

theorem aggregate_right_iff :
    reader.outcome predicates ((marks.filter Prod.snd).map Prod.fst) = reader.outcome predicates (marks.map Prod.fst) ↔
      reader.AggregatesKept predicates marks := by
  unfold AggregatesKept
  by_cases pruned : ∃ row, (row, false) ∈ marks
  · have rejected : ∀ rows, reader.Rejected predicates rows ↔
        ¬ ∀ predicate ∈ predicates, predicate.admits (reader.total predicate.column rows) := by
      simp [Rejected]
    have some' : marks.map Prod.fst ≠ [] := by
      obtain ⟨row,inside⟩ := pruned
      simpa using ne_nil_of_mem inside
    obtain ⟨whole,wide,totals,made⟩ := outcome_eq reader predicates some' (forall_mem_map.mpr marked.width)
    simp only [pruned, forall_const, rejected]
    by_cases none' : (marks.filter Prod.snd).map Prod.fst = []
    · rw [none', made]
      simp [outcome, merged]
    · obtain ⟨part,wide',totals',made'⟩ := outcome_eq reader predicates none'
        (forall_mem_map.mpr fun mark inside => marked.width mark (mem_of_mem_filter inside))
      have same : part = whole ↔ ∀ column, reader.total column ((marks.filter Prod.snd).map Prod.fst) =
          reader.total column (marks.map Prod.fst) := by
        simp only [← totals, ← totals']
        exact ⟨fun same _ => by rw [same],ext_cellAt (wide'.trans wide.symm)⟩
      rw [made, made', ← same]
      by_cases equal : part = whole
      · simp [same.mp equal, equal, none']
      · split_ifs <;> simp_all
  · simp [filter_of_unpruned pruned, pruned]

end

def oneRow (key value : Int) : Segment Int where
  rows := [[some key, some value]]
  columns column := ⟨true, if column = 1 then some ⟨true, some value, some value⟩ else none, none⟩
  bounded := by
    intro column zone isZone row inside cell isCell
    by_cases second : column = 1
    · simp only [second, if_true, Option.mem_def, Option.some.injEq] at isZone
      simp_all [cellAt, ZoneMap.Bounds, ← isZone]
    · simp [second] at isZone
  paged := by simp

def uniqueReader : MergeReader Int :=
  ⟨[0], [none, some .replace], fun _ _ incoming => incoming, by simp⟩

end MergeReader

end

end NovaRocks.Reader
