import NovaRocks.Parquet.RowGroups

/-!
When pruning inside a Parquet file loses no row. Whatever byte range is scanned and however
pages are laid out, merged and intersected, a row is lost only where a single value satisfies
a predicate and bounds around the stored value fail its test.
-/
namespace NovaRocks.Parquet
open NovaRocks.Store List
open Statistics (satisfies)
open Option (bind_eq_some_iff mem_def)
open NovaRocks.Codegen.Pruning (MinMaxPredicateOp rangeMaySatisfy range_of_point bytesLe bytesLe_trans
  i64Le i64Le_trans boolInt)

/-! ### Comparing values -/

def TimeUnit.inNanos : TimeUnit → Int
  | .millis => 1000000
  | .micros => 1000
  | .nanos => 1

def MinMaxPredicateValue.integer : MinMaxPredicateValue → Option Int
  | .int32 value => some value
  | .int64 value => some value
  | .largeInt value => some value
  | _ => none

/-- The two sides in one unit: a stored number times the first is compared with the second. An
integer is compared with the number of days or microseconds. -/
def LogicalType.against : LogicalType → MinMaxPredicateValue → Option (Int × Raw)
  | .boolean, .boolean v => some (1, .int (boolInt v))
  | .text, .byteArray b => some (1, .bytes b)
  | .integer, .decimal128 value scale => some (10 ^ scale, .int value)
  | .integer, .date32 days => some (1, .int days)
  | .integer, .dateTimeMicros micros => some (1, .int micros)
  | .decimal own, .decimal128 value scale => some (10 ^ scale, .int (value * 10 ^ own))
  | .date, .date32 days => some (1, .int days)
  | .date, .dateTimeMicros micros => some (86400000000, .int micros)
  | .timestamp unit, .date32 days => some (unit.inNanos, .int (days * 86400000000000))
  | .timestamp unit, .dateTimeMicros micros => some (unit.inNanos, .int (micros * 1000))
  | .integer, value => value.integer.map fun v => (1, .int v)
  | .date, value => value.integer.map fun v => (1, .int v)
  | .decimal own, value => value.integer.map fun v => (1, .int (v * 10 ^ own))
  | .timestamp unit, value => value.integer.map fun v => (unit.inNanos, .int (v * 1000))
  | _, _ => none

def Raw.times (factor : Int) : Raw → Raw
  | .int v => .int (v * factor)
  | .bytes b => .bytes b

/-- What is stored, in the order of the column: the bytes of a decimal are a number. -/
def ColumnDescriptor.key (column : ColumnDescriptor) : Raw → Raw
  | .bytes b =>
    match column.logical with
    | .decimal _ => .int ((decodeSignedBeI128 b).getD 0)
    | _ => .bytes b
  | .int v => .int v

/-- The comparison of a value with the literal; `convert` stands for those that turn text into
numbers or numbers into text. -/
def ColumnDescriptor.satisfies
    (convert : ColumnDescriptor → MinMaxPredicateOp → Raw → MinMaxPredicateValue → Bool)
    (column : ColumnDescriptor) (op : MinMaxPredicateOp) (cell : Raw) (value : MinMaxPredicateValue) : Bool :=
  match column.logical.against value with
  | some (factor, other) =>
    rangeMaySatisfy Raw.le ((column.key cell).times factor) ((column.key cell).times factor) op other
  | none => convert column op cell value

def ColumnDescriptor.Holds (column : ColumnDescriptor) : Raw → Prop
  | .int v => column.logical ≠ .text ∧
    match column.physical with
    | .boolean => v = 0 ∨ v = 1
    | .int32 => fitting 32 v = some v
    | .int64 => fitting 64 v = some v
    | .int96 | .float | .double => True
    | .byteArray | .fixedLenByteArray => False
  | .bytes b => (column.physical = .byteArray ∨ column.physical = .fixedLenByteArray) ∧
    (∀ byte ∈ b, byte < 256) ∧
    (column.logical = .text ∨ ∃ scale, column.logical = .decimal scale ∧ decodeSignedBeI128 b ≠ none)

/-- The stored values are compared with a key that is the literal in the unit of the column, or
with nothing. -/
def ColumnDescriptor.OneUnit (column : ColumnDescriptor) (value : MinMaxPredicateValue) : Prop :=
  (∀ bound, compared column.physical value bound = none) ∨
    ∃ factor key, 0 < factor ∧ column.logical.against value = some (factor, key.times factor) ∧
      ∀ bound, column.Holds bound →
        compared column.physical value bound = some (column.key bound, key)

/-! ### Files that are described rightly -/

/-- Two values of the column with the cell between them. -/
structure ColumnDescriptor.Bounds (column : ColumnDescriptor) (min max cell : Raw) : Prop where
  holdsMin : column.Holds min
  holdsMax : column.Holds max
  low : Raw.le (column.key min) (column.key cell) = true
  high : Raw.le (column.key cell) (column.key max) = true

def pageOf (totalRows : Nat) : List Page → Nat → Option Page
  | [], _ => none
  | page :: later, row => if row < pageEnd totalRows later then some page else pageOf totalRows later row

abbrev Row := String → Option Raw

/-- The statistics and page indexes of a chunk bound the cells of its column. -/
structure ColumnChunk.Right (chunk : ColumnChunk) (rows : List Row) : Prop where
  statistics : ∀ stats ∈ chunk.statistics, ∀ row ∈ rows, ∀ cell ∈ row chunk.descriptor.path,
    chunk.descriptor.Bounds (stats.min.getD cell) (stats.max.getD cell) cell
  starts : ∀ pages ∈ chunk.pages, ∀ page ∈ pages.head?, page.firstRowIndex = 0
  paged : ∀ pages ∈ chunk.pages, ∀ (idx : Nat) row, rows[idx]? = some row →
    ∀ cell ∈ row chunk.descriptor.path, ∃ page, pageOf rows.length pages idx = some page ∧
      page.nullPage = false ∧ chunk.descriptor.Bounds page.min page.max cell

def Typed (schema : List ColumnDescriptor) (row : Row) : Prop :=
  ∀ column ∈ schema, ∀ cell ∈ row column.path, column.Holds cell

structure RowGroup.Right (schema : List ColumnDescriptor) (rowGroup : RowGroup) (rows : List Row) : Prop where
  columns : rowGroup.columns.map ColumnChunk.descriptor = schema
  count : rowGroup.numRows = rows.length
  typed : ∀ row ∈ rows, Typed schema row
  chunks : ∀ chunk ∈ rowGroup.columns, chunk.Right rows

/-! ### The ranges of rows -/

/-- The row is in a range, and the ranges before that one end before the row. -/
inductive Reaches (row : Nat) : List (Nat × Nat) → Prop
  | here {r ranges} : r.1 ≤ row → row < r.2 → Reaches row (r :: ranges)
  | later {r ranges} : r.1 ≤ row → r.2 ≤ row → Reaches row ranges → Reaches row (r :: ranges)

variable {ranges : List (Nat × Nat)}

theorem Reaches.inside (reaches : Reaches row ranges) : ∃ r ∈ ranges, r.1 ≤ row ∧ row < r.2 := by
  induction reaches with
  | here low high => exact ⟨_,mem_cons_self,low,high⟩
  | later _ _ _ ih =>
    obtain ⟨r,member,inside⟩ := ih
    exact ⟨r,mem_cons_of_mem _ member,inside⟩

theorem Reaches.mergeFrom (ranges : List (Nat × Nat))
    (reaches : Reaches row (current :: ranges)) : Reaches row (mergeFrom current ranges) := by
  induction ranges generalizing current with
  | nil => exact reaches
  | cons r ranges ih =>
    unfold Parquet.mergeFrom
    split
    · apply ih
      cases reaches with
      | here low high => exact .here low (by simp only; omega)
      | later low passed rest =>
        cases rest with
        | here low' high => exact .here low (by simp only; omega)
        | later low' passed' rest => exact .later low (by simp only; omega) rest
    · cases reaches with
      | here low high => exact .here low high
      | later low passed rest => exact .later low passed (ih rest)

theorem Reaches.mergeRanges (reaches : Reaches row ranges) : Reaches row (mergeRanges ranges) := by
  cases ranges with
  | nil => exact reaches
  | cons r ranges => exact reaches.mergeFrom

theorem Reaches.intersectRanges (inA : Reaches row as)
    (inB : Reaches row bs) : Reaches row (intersectRanges as bs) := by
  fun_induction Parquet.intersectRanges as bs with
  | case1 bs => exact inA
  | case2 as => exact inB
  | case3 a as b bs out dropA dropB =>
    -- what two first ranges share goes before the rest unless it holds the row
    have behind : ∀ {rest}, a.2 ≤ row ∨ b.2 ≤ row → a.1 ≤ row → b.1 ≤ row → Reaches row rest →
        Reaches row (out ++ rest) := by
      intro rest passed lowA lowB reaches
      simp only [out]
      split
      · exact .later (by simp only; omega) (by simp only; omega) reaches
      · exact reaches
    cases inA with
    | here lowA highA =>
      cases inB with
      | here lowB highB =>
        have some_ : max a.1 b.1 < min a.2 b.2 := by omega
        simp only [out, dif_pos some_]
        exact .here (by simp only; omega) (by simp only; omega)
      | later lowB passed rest =>
        rw [if_neg (by omega)]
        exact behind (.inr passed) lowA lowB (dropB (.here lowA highA) rest)
    | later lowA passedA restA =>
      have lowB : b.1 ≤ row := by cases inB <;> assumption
      split
      · exact behind (.inl passedA) lowA lowB (dropA restA inB)
      · cases inB with
        | here _ highB => omega
        | later _ passedB restB =>
          exact behind (.inl passedA) lowA lowB (dropB (.later lowA passedA restA) restB)

theorem reaches_pageRanges (pages : List Page) (starts : ∀ first ∈ pages.head?, first.firstRowIndex ≤ row)
    (found : pageOf totalRows pages row = some page) (filled : page.nullPage = false)
    (passes : rangeMaySatisfy Raw.le page.min page.max op (.int v) = true) :
    Reaches row (pageRanges totalRows op v pages) := by
  induction pages with
  | nil => cases found
  | cons first later ih =>
    have low := starts first rfl
    unfold pageOf at found
    unfold pageRanges
    split at found
    · cases found
      rw [filled, passes, if_pos (by
        simp only [Bool.not_false, Bool.true_and, decide_eq_true_eq]
        omega)]
      exact .here low ‹_›
    · have next : ∀ second ∈ later.head?, second.firstRowIndex ≤ row := by
        intro second isSecond
        have ends : ¬ row < pageEnd totalRows later := ‹_›
        rw [pageEnd, mem_def.mp isSecond] at ends
        simp only [Option.map_some, Option.getD_some] at ends
        omega
      dsimp only
      split
      · exact .later low (by simp only; omega) (ih next found)
      · exact ih next found

/-! ### What is read -/

section
variable (convert : ColumnDescriptor → MinMaxPredicateOp → Raw → MinMaxPredicateValue → Bool)
  (schema : List ColumnDescriptor) (projection : Projection) (predicates : List MinMaxPredicate)

def Satisfied (row : Row) : Prop :=
  ∀ predicate ∈ predicates, ∀ column ∈ schema.find? (projection.names predicate),
    ∃ cell ∈ row column.path, column.satisfies convert predicate.op cell predicate.value = true

def Reads (rowGroups : List RowGroup) (range : FileScanRange) (group row : Nat) : Prop :=
  ∃ before after,
    (selectRowGroupsForRange projection rowGroups range none predicates).getD (List.range rowGroups.length) =
      before ++ group :: after ∧
    ∀ ranges ∈ buildRowSelectionForRowGroups projection
      ((before ++ group :: after).filterMap (rowGroups[·]?)) predicates,
      ∃ r ∈ ranges, r.1 ≤ ((before.filterMap (rowGroups[·]?)).map RowGroup.numRows).sum + row ∧
        ((before.filterMap (rowGroups[·]?)).map RowGroup.numRows).sum + row < r.2

/-- In every file that is described rightly, the rows of the range that satisfy the predicates
are read. -/
def PruningSafe : Prop :=
  ∀ groups : List (RowGroup × List Row), (∀ group ∈ groups, group.1.Right schema group.2) →
    ∀ (range : FileScanRange) (idx : Nat) rowGroup rows, groups[idx]? = some (rowGroup, rows) →
      (∃ start ∈ rowGroup.startOffset, range.holds start = true) →
      ∀ (number : Nat) row, rows[number]? = some row → Satisfied convert schema projection predicates row →
        Reads projection predicates (groups.map Prod.fst) range idx number

/-- Bounds around a cell of a satisfying row pass the tests. -/
def TestsKeep : Prop :=
  ∀ row, Typed schema row → Satisfied convert schema projection predicates row →
    ∀ predicate ∈ predicates, ∀ column ∈ schema.find? (projection.names predicate),
      ∀ cell ∈ row column.path, ∀ min max, column.Bounds min max cell →
        satisfies column.physical ⟨some min, some max⟩ predicate.op predicate.value = true

end

section
variable {projection : Projection}
theorem satisfies_of_bounds {stats : Statistics}
    (passes : satisfies physical ⟨some (stats.min.getD cell), some (stats.max.getD cell)⟩ op value = true) :
    stats.satisfies physical op value = true := by
  obtain ⟨min,max⟩ := stats
  cases min <;> cases max <;> cases op <;>
    simp_all [satisfies, checkMinSatisfiesLe, checkMaxSatisfiesGe, checkMinSatisfiesLt,
      checkMaxSatisfiesGt, checkBound]

theorem satisfies_eq {min max low high key : Raw} (lower : compared physical value min = some (low, key))
    (upper : compared physical value max = some (high, key)) (op : MinMaxPredicateOp) :
    satisfies physical ⟨some min, some max⟩ op value = rangeMaySatisfy Raw.le low high op key := by
  cases op <;> simp [satisfies, checkMinSatisfiesLe, checkMaxSatisfiesGe, checkMinSatisfiesLt,
    checkMaxSatisfiesGt, checkBound, lower, upper, rangeMaySatisfy, Bool.and_comm]

theorem compared_page (key : pageKey physical value = some v) (bound : Raw) :
    compared physical value bound = some (bound, .int v) := by
  cases physical <;> simp_all [pageKey, compared]

theorem reaches_rangesOf (predicates : List MinMaxPredicate)
    (paged : ∀ predicate ∈ predicates, ∀ chunk ∈ projection.chunk rowGroup predicate,
      ∀ pages ∈ pageRangesForPredicate chunk rowGroup.numRows predicate, Reaches row pages)
    {ranges : List (Nat × Nat)} (reaches : Reaches row ranges) :
    Reaches row (rangesOf projection rowGroup predicates ranges) := by
  induction predicates generalizing ranges with
  | nil => exact reaches
  | cons predicate predicates ih =>
    have rest := @ih fun other member => paged other (mem_cons_of_mem _ member)
    unfold rangesOf
    split
    · exact rest reaches
    · rename_i pages found
      obtain ⟨chunk,isChunk,isPages⟩ := bind_eq_some_iff.mp found
      have shared := reaches.intersectRanges (paged predicate mem_cons_self chunk isChunk pages isPages)
      split
      · rename_i empty
        rw [isEmpty_iff.mp empty] at shared
        cases shared
      · exact rest shared

theorem inside_globalRanges (before after : List RowGroup) (offset : Nat)
    (reaches : Reaches row (rangesOf projection rowGroup predicates [(0, rowGroup.numRows)])) :
    ∃ r ∈ globalRanges projection predicates offset (before ++ rowGroup :: after),
      r.1 ≤ offset + (before.map RowGroup.numRows).sum + row ∧
        offset + (before.map RowGroup.numRows).sum + row < r.2 := by
  induction before generalizing offset with
  | nil =>
    obtain ⟨r,member,low,high⟩ := reaches.mergeRanges.inside
    refine ⟨_,mem_append_left _ (mem_map_of_mem member),?_⟩
    simp only [map_nil, sum_nil]
    omega
  | cons first before ih =>
    obtain ⟨r,member,inside⟩ := ih (offset + first.numRows)
    refine ⟨r,mem_append_right _ member,?_⟩
    rw [map_cons, sum_cons]
    omega

theorem mem_selectFrom {range : FileScanRange} (groups : List (RowGroup × Nat))
    (selected : selectFrom projection range predicates none groups = some chosen)
    (member : (rowGroup, idx) ∈ groups) (starts : ∃ start ∈ rowGroup.startOffset, range.holds start = true)
    (read : shouldReadRowGroup projection rowGroup predicates = true) : idx ∈ chosen := by
  induction groups generalizing chosen with
  | nil => cases member
  | cons group groups ih =>
    simp only [selectFrom, Option.bind_eq_bind, bind_eq_some_iff] at selected
    obtain ⟨start,isStart,rest⟩ := selected
    split at rest
    · obtain ⟨later,isLater,made⟩ := bind_eq_some_iff.mp rest
      cases made
      rcases mem_cons.mp member with same | tail
      · cases same
        exact mem_cons_self
      · exact mem_cons_of_mem _ (ih isLater tail)
    · rename_i skipped
      rcases mem_cons.mp member with same | tail
      · cases same
        obtain ⟨own,isOwn,holds⟩ := starts
        rw [mem_def, isStart] at isOwn
        cases isOwn
        exact absurd (by rw [holds, read]; rfl) skipped
      · exact ih rest tail

variable {schema : List ColumnDescriptor}

theorem find?_descriptor {rows : List Row} (right : rowGroup.Right schema rows) (predicate : MinMaxPredicate) :
    schema.find? (projection.names predicate) =
      (projection.chunk rowGroup predicate).map ColumnChunk.descriptor := by
  rw [← right.columns, find?_map]
  rfl

theorem pruningSafe_of_testsKeep (keep : TestsKeep convert schema projection predicates) :
    PruningSafe convert schema projection predicates := by
  intro groups right range idx rowGroup rows here starts number row isRow satisfied
  have groupRight := right _ (mem_of_getElem? here)
  have member := mem_of_getElem? isRow
  -- the cell a predicate tests, and that bounds around it pass
  have tests : ∀ predicate ∈ predicates, ∀ chunk, projection.chunk rowGroup predicate = some chunk →
      chunk ∈ rowGroup.columns ∧ ∃ cell ∈ row chunk.descriptor.path, ∀ min max,
        chunk.descriptor.Bounds min max cell →
        satisfies chunk.descriptor.physical ⟨some min,some max⟩ predicate.op predicate.value := by
    intro predicate inPredicates chunk isChunk
    have column : schema.find? (projection.names predicate) = some chunk.descriptor := by
      rw [find?_descriptor groupRight, isChunk]
      rfl
    obtain ⟨cell,isCell,-⟩ := satisfied predicate inPredicates _ column
    exact ⟨mem_of_find?_eq_some isChunk,cell,isCell,
      keep row (groupRight.typed row member) satisfied predicate inPredicates _ column cell isCell⟩
  have read : shouldReadRowGroup projection rowGroup predicates = true := by
    simp only [shouldReadRowGroup, all_eq_true, Option.all_eq_true]
    intro predicate inPredicates chunk isChunk stats isStats
    obtain ⟨inColumns,cell,isCell,passes⟩ := tests predicate inPredicates chunk isChunk
    have bounds := (groupRight.chunks chunk inColumns).statistics stats isStats row member cell isCell
    exact satisfies_of_bounds (passes _ _ bounds)
  have inside : number < rowGroup.numRows := by
    rw [groupRight.count]
    exact (List.getElem?_eq_some_iff.mp isRow).1
  have reaches : Reaches number (rangesOf projection rowGroup predicates [(0, rowGroup.numRows)]) := by
    refine reaches_rangesOf predicates ?_ (.here (Nat.zero_le _) inside)
    intro predicate inPredicates chunk isChunk ranges isRanges
    obtain ⟨inColumns,cell,isCell,passes⟩ := tests predicate inPredicates chunk isChunk
    obtain ⟨pages,isPages,rest⟩ := bind_eq_some_iff.mp isRanges
    split at rest
    · cases rest
    · obtain ⟨v,key,made⟩ := bind_eq_some_iff.mp rest
      cases made
      have chunkRight := groupRight.chunks chunk inColumns
      obtain ⟨page,found,filled,bounds⟩ := chunkRight.paged pages isPages number row isRow cell isCell
      rw [← groupRight.count] at found
      have passed := passes _ _ bounds
      rw [satisfies_eq (compared_page key _) (compared_page key _)] at passed
      refine (reaches_pageRanges pages ?_ found filled passed).mergeRanges
      intro first isFirst
      rw [chunkRight.starts pages isPages first isFirst]
      exact Nat.zero_le _
  have listed : (groups.map Prod.fst)[idx]? = some rowGroup := by
    rw [getElem?_map, here]
    rfl
  have chosen : idx ∈ (selectRowGroupsForRange projection (groups.map Prod.fst) range none predicates).getD
      (List.range (groups.map Prod.fst).length) := by
    have all : idx ∈ List.range (groups.map Prod.fst).length :=
      mem_range.mpr (List.getElem?_eq_some_iff.mp listed).1
    unfold selectRowGroupsForRange
    split
    · exact all
    · cases selected : selectFrom projection range predicates none (groups.map Prod.fst).zipIdx with
      | none => exact all
      | some chosen => exact mem_selectFrom _ selected (mem_zipIdx_iff_getElem?.mpr listed) starts read
  obtain ⟨before,after,shape⟩ := append_of_mem chosen
  refine ⟨before,after,shape,?_⟩
  intro ranges isRanges
  rw [filterMap_append, filterMap_cons, listed] at isRanges
  simp only [buildRowSelectionForRowGroups] at isRanges
  split at isRanges
  · cases isRanges
  · cases isRanges
    have found := inside_globalRanges (before.filterMap ((groups.map Prod.fst)[·]?))
      (after.filterMap ((groups.map Prod.fst)[·]?)) 0 reaches
    rwa [Nat.zero_add] at found

/-! ### Literals in the unit of their columns -/

theorem Raw.le_trans (a b c : Raw) (first : Raw.le a b = true) (second : Raw.le b c = true) :
    Raw.le a c = true := by
  cases a <;> cases b <;> cases c <;> try contradiction
  · exact i64Le_trans _ _ _ first second
  · exact bytesLe_trans _ _ _ first second

theorem Raw.times_le (positive : 0 < factor) (a b : Raw) :
    Raw.le (a.times factor) (b.times factor) = Raw.le a b := by
  cases a <;> cases b <;> simp [Raw.times, Raw.le, i64Le, positive]

theorem testsKeep_of_oneUnit (units : ∀ predicate ∈ predicates,
      ∀ column ∈ schema.find? (projection.names predicate), column.OneUnit predicate.value) :
    TestsKeep convert schema projection predicates := by
  intro row typed satisfied predicate listed column isColumn cell isCell min max bounds
  obtain ⟨own,isOwn,holds⟩ := satisfied predicate listed column isColumn
  rw [mem_def, isCell] at isOwn
  cases isOwn
  rcases units predicate listed column isColumn with untested | ⟨factor,key,positive,same,tested⟩
  · cases predicate.op <;> simp [satisfies, checkMinSatisfiesLe, checkMaxSatisfiesGe,
      checkMinSatisfiesLt, checkMaxSatisfiesGt, checkBound, untested]
  · rw [satisfies_eq (tested min bounds.holdsMin) (tested max bounds.holdsMax)]
    apply range_of_point Raw.le_trans bounds.low bounds.high
    rw [ColumnDescriptor.satisfies, same] at holds
    cases op : predicate.op <;> simpa only [op, rangeMaySatisfy, Raw.times_le positive] using holds

/-! ### A file that loses its row -/

def oneRowGroup (schema : List ColumnDescriptor) (column : ColumnDescriptor) (min max : Raw) : RowGroup :=
  ⟨schema.map fun descriptor =>
    ⟨descriptor, 0, if descriptor = column then some ⟨some min, some max⟩ else none, none⟩, 1⟩

variable {row : Row} {column : ColumnDescriptor} {cell min max : Raw}

theorem oneRowGroup_right (typed : Typed schema row) (isCell : row column.path = some cell)
    (bounds : column.Bounds min max cell) : (oneRowGroup schema column min max).Right schema [row] where
  columns := by simp [oneRowGroup, Function.comp_def]
  count := rfl
  typed other member := by rwa [mem_singleton.mp member]
  chunks chunk member := by
    obtain ⟨descriptor,-,rfl⟩ := mem_map.mp member
    refine ⟨?_,nofun,nofun⟩
    intro stats isStats other inRows value isValue
    split at isStats
    · rename_i same
      rw [mem_singleton.mp inRows, same, mem_def, isCell] at isValue
      cases isStats
      cases isValue
      rw [same]
      exact bounds
    · cases isStats

theorem oneRowGroup_start (inSchema : column ∈ schema) :
    (oneRowGroup schema column min max).startOffset = some 0 := by
  have zeros : (((oneRowGroup schema column min max).columns.map ColumnChunk.dataPageOffset).filter
      (0 ≤ ·)).map Int.toNat = replicate schema.length 0 := by
    simp [oneRowGroup, Function.comp_def]
  rw [RowGroup.startOffset, zeros, min?_replicate, if_neg]
  exact fun none => ne_nil_of_mem inSchema (length_eq_zero_iff.mp none)

theorem oneRowGroup_unread (listed : predicate ∈ predicates)
    (isColumn : schema.find? (projection.names predicate) = some column)
    (fails : satisfies column.physical ⟨some min, some max⟩ predicate.op predicate.value = false) :
    ¬ Reads projection predicates [oneRowGroup schema column min max] ⟨0, 1, 1⟩ 0 0 := by
  have unread : shouldReadRowGroup projection (oneRowGroup schema column min max) predicates = false := by
    rw [shouldReadRowGroup, all_eq_false]
    refine ⟨predicate,listed,?_⟩
    have chunk : projection.chunk (oneRowGroup schema column min max) predicate =
        some ⟨column,0,some ⟨some min,some max⟩,none⟩ := by
      rw [Projection.chunk, oneRowGroup, find?_map]
      change (schema.find? (projection.names predicate)).map _ = _
      simp [isColumn]
    simp [chunk, fails]
  have none : selectRowGroupsForRange projection [oneRowGroup schema column min max] ⟨0,1,1⟩ none predicates =
      some [] := by
    have start := @oneRowGroup_start schema column min max (mem_of_find?_eq_some isColumn)
    simp [selectRowGroupsForRange, selectFrom, start, unread]
  rintro ⟨before,after,shape,-⟩
  rw [none] at shape
  cases before <;> cases shape

theorem testsKeep_of_pruningSafe (safe : PruningSafe convert schema projection predicates) :
    TestsKeep convert schema projection predicates := by
  intro row typed satisfied predicate listed column isColumn cell isCell min max bounds
  by_contra fails
  have reads := safe [(oneRowGroup schema column min max, [row])] (by
    intro group member
    rw [mem_singleton.mp member]
    exact oneRowGroup_right typed isCell bounds) ⟨0,1,1⟩ 0 _ _ rfl
    ⟨0,oneRowGroup_start (mem_of_find?_eq_some isColumn),rfl⟩ 0 row rfl satisfied
  exact oneRowGroup_unread listed isColumn (by simpa using fails) reads

end

/-- Pruning loses no row of any file exactly if bounds around what satisfies the predicates pass
their tests; so they do where the literals are in the units of their columns. -/
theorem parquet_pruning_safe_iff
    (convert : ColumnDescriptor → MinMaxPredicateOp → Raw → MinMaxPredicateValue → Bool)
    (schema : List ColumnDescriptor) (projection : Projection) (predicates : List MinMaxPredicate) :
    (PruningSafe convert schema projection predicates ↔ TestsKeep convert schema projection predicates) ∧
      ((∀ predicate ∈ predicates, ∀ column ∈ schema.find? (projection.names predicate),
        column.OneUnit predicate.value) → PruningSafe convert schema projection predicates) :=
  ⟨⟨testsKeep_of_pruningSafe,pruningSafe_of_testsKeep⟩,
    fun units => pruningSafe_of_testsKeep (testsKeep_of_oneUnit units)⟩

def priceColumn : ColumnDescriptor :=
  ⟨"price", .fixedLenByteArray, .decimal 2⟩

def priceRow : Row :=
  fun path => if path = "price" then some (.bytes [0, 100]) else none

def priceGroup : RowGroup :=
  oneRowGroup [priceColumn] priceColumn (.bytes [0, 100]) (.bytes [0, 100])

/-- `price <= 1.5`: the stored 100 is compared with 15. -/
theorem decimal_row_lost :
    priceGroup.Right [priceColumn] [priceRow] ∧
      (∃ start ∈ priceGroup.startOffset, FileScanRange.holds ⟨0, 1, 1⟩ start = true) ∧
      Satisfied (fun _ _ _ _ => false) [priceColumn] ⟨["price"], true⟩
    [⟨.le, some 0, .decimal128 15 1⟩] priceRow ∧
      ¬ Reads ⟨["price"], true⟩ [⟨.le, some 0, .decimal128 15 1⟩] [priceGroup] ⟨0, 1, 1⟩ 0 0 := by
  have holds : priceColumn.Holds (.bytes [0, 100]) := ⟨.inr rfl,by decide,.inr ⟨2,rfl,by decide⟩⟩
  have typed : Typed [priceColumn] priceRow := by
    intro column member cell isCell
    rw [mem_singleton.mp member] at isCell ⊢
    cases isCell
    exact holds
  refine ⟨oneRowGroup_right typed rfl ⟨holds,holds,by decide,by decide⟩,⟨0,by decide⟩,?_,
    oneRowGroup_unread mem_cons_self (by decide) (by decide)⟩
  intro predicate listed column isColumn
  rw [mem_singleton.mp listed] at isColumn ⊢
  cases isColumn
  exact ⟨.bytes [0, 100],rfl,by decide⟩

end NovaRocks.Parquet
