import NovaRocks.Codegen.FilePruningSafe

/-!
Pruning inside a Parquet file. Row groups whose statistics exclude a predicate are not
read, and of the others only the pages whose indexes exclude none. A literal is compared
with the stored numbers and bytes themselves, whatever unit or scale the column gives them.
-/
namespace NovaRocks.Parquet
open NovaRocks.Store
open NovaRocks.Codegen.Pruning (MinMaxPredicateOp rangeMaySatisfy range_of_point bytesLe bytesLe_trans
  i64Le i64Le_trans boolInt eqIgnoreAsciiCase)

/-- The literals that are no floats. -/
inductive MinMaxPredicateValue where
  | boolean (value : Bool)
  | int32 (value : Int)
  | int64 (value : Int)
  | byteArray (bytes : List Nat)
  | fixedLenByteArray (bytes : List Nat)
  | date32 (days : Int)
  | dateTimeMicros (micros : Int)
  | largeInt (value : Int)
  | decimal128 (value : Int) (scale : Nat)

/-- `column` is the position among the projected columns, `none` if its text is no number. -/
structure MinMaxPredicate where
  op : MinMaxPredicateOp
  column : Option Nat
  value : MinMaxPredicateValue

def fitting (bits : Nat) (value : Int) : Option Int :=
  if -2 ^ (bits - 1) ≤ value ∧ value < 2 ^ (bits - 1) then some value else none

namespace MinMaxPredicateValue

def asI32 : MinMaxPredicateValue → Option Int
  | .int32 value => some value
  | .int64 value => fitting 32 value
  | .date32 days => some days
  | _ => none

def asI64 : MinMaxPredicateValue → Option Int
  | .int32 value => some value
  | .int64 value => some value
  | .date32 days => some days
  | .dateTimeMicros micros => some micros
  | .largeInt value => fitting 64 value
  | _ => none

def asBool : MinMaxPredicateValue → Option Bool
  | .boolean value => some value
  | _ => none

def asBytes : MinMaxPredicateValue → Option (List Nat)
  | .byteArray bytes => some bytes
  | .fixedLenByteArray bytes => some bytes
  | _ => none

end MinMaxPredicateValue

def decodeSignedBeI128 (bytes : List Nat) : Option Int :=
  if bytes.isEmpty || 16 < bytes.length then none else some (ofSignedBytes bytes.reverse)

def fixedLenPredicateValueAsI128 : MinMaxPredicateValue → Option Int
  | .decimal128 value _ => some value
  | .fixedLenByteArray bytes => decodeSignedBeI128 bytes
  | _ => none

/-- What is stored: numbers, truth values as 0 and 1, or bytes. -/
inductive Raw where
  | int (value : Int)
  | bytes (value : List Nat)
  deriving DecidableEq

def Raw.le : Raw → Raw → Bool
  | .int a, .int b => i64Le a b
  | .bytes a, .bytes b => bytesLe a b
  | _, _ => false

inductive Physical where
  | boolean
  | int32
  | int64
  | int96
  | float
  | double
  | byteArray
  | fixedLenByteArray
  deriving DecidableEq

/-- A bound and the literal it is compared with, if there is a test. -/
def compared (physical : Physical) (value : MinMaxPredicateValue) (bound : Raw) : Option (Raw × Raw) :=
  match physical, bound with
  | .boolean, _ => value.asBool.map fun v => (bound, .int (boolInt v))
  | .int32, _ => value.asI32.map fun v => (bound, .int v)
  | .int64, _ => value.asI64.map fun v => (bound, .int v)
  | .byteArray, _ => value.asBytes.map fun v => (bound, .bytes v)
  | .fixedLenByteArray, .bytes b =>
    match fixedLenPredicateValueAsI128 value, decodeSignedBeI128 b with
    | some v, some n => some (.int n, .int v)
    | _, _ => value.asBytes.map fun v => (bound, .bytes v)
  | _, _ => none

def checkBound (test : Raw → Raw → Bool) (physical : Physical) (bound : Option Raw)
    (value : MinMaxPredicateValue) : Bool :=
  (bound.bind (compared physical value)).all fun pair => test pair.1 pair.2

def checkMaxSatisfiesGe := checkBound fun max value => Raw.le value max

def checkMinSatisfiesLe := checkBound fun min value => Raw.le min value

def checkMaxSatisfiesGt := checkBound fun max value => !Raw.le max value

def checkMinSatisfiesLt := checkBound fun min value => !Raw.le value min

structure Statistics where
  min : Option Raw
  max : Option Raw

def Statistics.satisfies (physical : Physical) (stats : Statistics) (op : MinMaxPredicateOp)
    (value : MinMaxPredicateValue) : Bool :=
  match op with
  | .le => checkMinSatisfiesLe physical stats.min value
  | .ge => checkMaxSatisfiesGe physical stats.max value
  | .lt => checkMinSatisfiesLt physical stats.min value
  | .gt => checkMaxSatisfiesGt physical stats.max value
  | .eq => checkMaxSatisfiesGe physical stats.max value && checkMinSatisfiesLe physical stats.min value

structure Page where
  firstRowIndex : Nat
  nullPage : Bool
  min : Raw
  max : Raw

inductive TimeUnit where
  | millis
  | micros
  | nanos
  deriving DecidableEq

inductive LogicalType where
  | boolean
  | integer
  | decimal (scale : Nat)
  | date
  | timestamp (unit : TimeUnit)
  | text
  deriving DecidableEq

structure ColumnDescriptor where
  path : String
  physical : Physical
  logical : LogicalType
  deriving DecidableEq

structure ColumnChunk where
  descriptor : ColumnDescriptor
  dataPageOffset : Int
  statistics : Option Statistics
  /-- if the chunk has both page indexes -/
  pages : Option (List Page)

structure RowGroup where
  columns : List ColumnChunk
  numRows : Nat

structure FileScanRange where
  offset : Nat
  length : Nat
  fileLen : Nat

/-- The columns of the scan and how their names are compared with those of the file. -/
structure Projection where
  columns : List String
  caseSensitive : Bool

variable (projection : Projection)

def Projection.names (predicate : MinMaxPredicate) (descriptor : ColumnDescriptor) : Bool :=
  (predicate.column.bind (projection.columns[·]?)).any fun name =>
    if projection.caseSensitive then descriptor.path = name else eqIgnoreAsciiCase descriptor.path name

def Projection.chunk (projection : Projection) (rowGroup : RowGroup) (predicate : MinMaxPredicate) :
    Option ColumnChunk :=
  rowGroup.columns.find? fun chunk => projection.names predicate chunk.descriptor

/-! ### Row groups -/

def shouldReadRowGroup (rowGroup : RowGroup) (predicates : List MinMaxPredicate) : Bool :=
  predicates.all fun predicate => (projection.chunk rowGroup predicate).all fun chunk =>
    chunk.statistics.all fun stats => stats.satisfies chunk.descriptor.physical predicate.op predicate.value

def RowGroup.startOffset (rowGroup : RowGroup) : Option Nat :=
  ((rowGroup.columns.map ColumnChunk.dataPageOffset).filter (0 ≤ ·)).map Int.toNat |>.min?

def FileScanRange.splitEnd (range : FileScanRange) : Nat :=
  if range.length = 0 ∧ range.fileLen = 0 then 2 ^ 64 - 1
  else
    let splitEnd := min (range.offset + range.length) (2 ^ 64 - 1)
    if 0 < range.fileLen ∧ range.fileLen < splitEnd then range.fileLen else splitEnd

def FileScanRange.holds (range : FileScanRange) (start : Nat) : Bool :=
  range.offset ≤ start && start < range.splitEnd

/-- The loop over the row groups; with a row limit it ends once enough rows are chosen. -/
def selectFrom (projection : Projection) (range : FileScanRange) (predicates : List MinMaxPredicate) :
    Option Nat → List (RowGroup × Nat) → Option (List Nat)
  | _, [] => some []
  | remainingRows, (rowGroup, idx) :: rest => do
    let start ← rowGroup.startOffset
    if range.holds start && shouldReadRowGroup projection rowGroup predicates then
      match remainingRows with
      | none => return idx :: (← selectFrom projection range predicates none rest)
      | some rowsLeft =>
        if rowsLeft ≤ rowGroup.numRows then return [idx]
        else return idx :: (← selectFrom projection range predicates (some (rowsLeft - rowGroup.numRows)) rest)
    else selectFrom projection range predicates remainingRows rest

def selectRowGroupsForRange (rowGroups : List RowGroup) (range : FileScanRange)
    (remainingRows : Option Nat) (predicates : List MinMaxPredicate) : Option (List Nat) :=
  if range.length = 0 ∧ remainingRows = none ∧ predicates = [] then none
  else selectFrom projection range predicates remainingRows rowGroups.zipIdx

/-! ### Pages -/

def mergeFrom (current : Nat × Nat) : List (Nat × Nat) → List (Nat × Nat)
  | [] => [current]
  | r :: ranges =>
    if r.1 ≤ current.2 then mergeFrom (current.1, max current.2 r.2) ranges
    else current :: mergeFrom r ranges

def mergeRanges : List (Nat × Nat) → List (Nat × Nat)
  | [] => []
  | r :: ranges => mergeFrom r ranges

def intersectRanges : List (Nat × Nat) → List (Nat × Nat) → List (Nat × Nat)
  | [], _ => []
  | _, [] => []
  | a :: as, b :: bs =>
    let out := if max a.1 b.1 < min a.2 b.2 then [(max a.1 b.1, min a.2 b.2)] else []
    out ++ if a.2 < b.2 then intersectRanges as (b :: bs) else intersectRanges (a :: as) bs
termination_by as bs => as.length + bs.length

/-- Only the number columns have a test. -/
def pageKey (physical : Physical) (value : MinMaxPredicateValue) : Option Int :=
  match physical with
  | .int32 => value.asI32
  | .int64 => value.asI64
  | _ => none

def pageEnd (totalRows : Nat) (later : List Page) : Nat :=
  (later.head?.map Page.firstRowIndex).getD totalRows

def pageRanges (totalRows : Nat) (op : MinMaxPredicateOp) (v : Int) : List Page → List (Nat × Nat)
  | [] => []
  | page :: later =>
    let keep := !page.nullPage && rangeMaySatisfy Raw.le page.min page.max op (.int v)
    if keep && page.firstRowIndex < pageEnd totalRows later then
      (page.firstRowIndex, pageEnd totalRows later) :: pageRanges totalRows op v later
    else pageRanges totalRows op v later

def pageRangesForPredicate (chunk : ColumnChunk) (totalRows : Nat) (predicate : MinMaxPredicate) :
    Option (List (Nat × Nat)) := do
  let pages ← chunk.pages
  if pages.isEmpty then none
  else
    let v ← pageKey chunk.descriptor.physical predicate.value
    return mergeRanges (pageRanges totalRows predicate.op v pages)

/-- The loop over the predicates, which ends when no range is left. -/
def rangesOf (projection : Projection) (rowGroup : RowGroup) :
    List MinMaxPredicate → List (Nat × Nat) → List (Nat × Nat)
  | [], ranges => ranges
  | predicate :: predicates, ranges =>
    match (projection.chunk rowGroup predicate).bind fun chunk =>
      pageRangesForPredicate chunk rowGroup.numRows predicate with
    | none => rangesOf projection rowGroup predicates ranges
    | some pages =>
      if (intersectRanges ranges pages).isEmpty then []
      else rangesOf projection rowGroup predicates (intersectRanges ranges pages)

def globalRanges (projection : Projection) (predicates : List MinMaxPredicate) :
    Nat → List RowGroup → List (Nat × Nat)
  | _, [] => []
  | rowOffset, rowGroup :: rowGroups =>
    (mergeRanges (rangesOf projection rowGroup predicates [(0, rowGroup.numRows)])).map
        (fun r => (r.1 + rowOffset, r.2 + rowOffset)) ++
      globalRanges projection predicates (rowOffset + rowGroup.numRows) rowGroups

/-- The rows to read of the chosen row groups, one after another; `none` stands for all. -/
def buildRowSelectionForRowGroups (rowGroups : List RowGroup) (predicates : List MinMaxPredicate) :
    Option (List (Nat × Nat)) :=
  let ranges := globalRanges projection predicates 0 rowGroups
  let total := (rowGroups.map RowGroup.numRows).sum
  if predicates = [] ∨ (ranges.map fun r => r.2 - r.1).sum = total then none else some ranges

end NovaRocks.Parquet
