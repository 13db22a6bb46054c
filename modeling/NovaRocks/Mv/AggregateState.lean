import NovaRocks.Mv.RowIds

/-!
State of an aggregate materialized view. Each group has one physical row: the row id
made of the group key, the visible values, and the state columns the visible values
are derived from. COUNT and SUM have one state column, AVG has a sum and a count.
A refresh adds the states of inserted rows and the negated states of deleted rows to
the states there are.
-/
namespace NovaRocks.Mv
open NovaRocks.Store NovaRocks.Lake
open List (Forall₂)

inductive SumType where
  | int64
  | decimal128
  deriving DecidableEq

/-- Values lie below the limit and not below its negative. -/
def SumType.limit : SumType → Int
  | int64 => 2 ^ 63
  | decimal128 => 2 ^ 127

/-- Inputs of a sum are integers or decimals at the scale of the state column; a NULL
input is left out. -/
inductive AggregateFunction (B : Type) where
  | countStar
  | count (counted : B → Bool)
  | sum (type : SumType) (input : B → Option Int)
  | avg (type : SumType) (input : B → Option Int)

structure AggregateCallShape (B : Type) where
  outputName : String
  function : AggregateFunction B

inductive StateKind (B : Type) where
  | count (star : Bool) (counted : B → Bool)
  | sum (type : SumType) (input : B → Option Int)

structure AggregateStateColumn (B : Type) where
  name : String
  visibleSourceIndex : Nat
  single : Bool
  kind : StateKind B

def sanitizeStateColumnName (name : String) : String :=
  let sanitized := name.map fun ch => if ch.isAlphanum || ch = '_' then ch.toLower else '_'
  if sanitized.isEmpty then "agg" else sanitized

section
variable {B : Type} (call : AggregateCallShape B)

namespace AggregateCallShape

def stateName : String :=
  "__agg_state_" ++ sanitizeStateColumnName call.outputName

def stateColumns (idx : Nat) : List (AggregateStateColumn B) :=
  match call.function with
  | .countStar => [⟨call.stateName, idx, true, .count true fun _ => true⟩]
  | .count counted => [⟨call.stateName, idx, true, .count false counted⟩]
  | .sum type input => [⟨call.stateName, idx, true, .sum type input⟩]
  | .avg type input =>
    [⟨call.stateName ++ "__sum", idx, false, .sum type input⟩,
      ⟨call.stateName ++ "__count", idx, false, .count false fun b => (input b).isSome⟩]

end AggregateCallShape

/-- The view: its filter, its group key and its aggregates, which the visible columns list
in this order. `average` divides in the visible type of the average. -/
structure AggregateMv (B : Type) where
  keep : B → Bool
  keyTypes : List GroupKeyType
  groupKey : B → Tuple
  groupTyped : ∀ b, Forall₂ GroupKeyType.Holds keyTypes (groupKey b)
  aggregates : List (AggregateCallShape B)
  average : SumType → Int → Int → Value

variable (mv : AggregateMv B)

namespace AggregateMv

def groupCount : Nat :=
  mv.keyTypes.length

def encode (group : Tuple) : String :=
  rowIdOf mv.keyTypes group

def Typed (group : Tuple) : Prop :=
  Forall₂ GroupKeyType.Holds mv.keyTypes group

def stateColumns (mv : AggregateMv B) : List (AggregateStateColumn B) :=
  (mv.aggregates.zipIdx mv.groupCount).flatMap fun (call, idx) => call.stateColumns idx

def visibleCount : Nat :=
  mv.groupCount + mv.aggregates.length

/-- Physical columns: the row id, which is the key, then visible and state columns. -/
def schema : TabletSchema :=
  ⟨1 + mv.visibleCount + mv.stateColumns.length, [0], [0]⟩

end AggregateMv

structure AggregatePhysicalRow where
  rowId : String
  visible : List Value
  state : List (Option Int)
  deriving DecidableEq

def stateCell : Option Int → Value
  | none => .null
  | some i => .int i

variable (row : AggregatePhysicalRow)

def AggregatePhysicalRow.toTuple : Tuple :=
  .text row.rowId :: (row.visible ++ row.state.map stateCell)

/-! Visible values from the state. -/

def deriveAvgVisible (type : SumType) (sum count : Option Int) : Except String Value :=
  match count with
  | none => .error "AVG count state must not be NULL"
  | some n =>
    if n = 0 then .ok .null
    else
      match sum with
      | none => .ok .null
      | some s => .ok (mv.average type s n)

def AggregateCallShape.stateCount : Nat :=
  match call.function with
  | .avg _ _ => 2
  | _ => 1

def deriveCallVisible (call : AggregateCallShape B) (own : List (Option Int)) : Except String Value :=
  match call.function, own with
  | .avg type _, [sum, count] => deriveAvgVisible mv type sum count
  | .avg _ _, _ => .error "internal: AVG aggregate missing AvgCount state column"
  | _, [state] => .ok (stateCell state)
  | _, _ => .error "aggregate MV state column count mismatch"

def deriveVisible (mv : AggregateMv B) :
    List (AggregateCallShape B) → List (Option Int) → Except String (List Value)
  | [], _ => .ok []
  | call :: calls, states => do
    let value ← deriveCallVisible mv call (states.take call.stateCount)
    let rest ← deriveVisible mv calls (states.drop call.stateCount)
    return value :: rest

def updateVisibleValuesFromState :
    Except String AggregatePhysicalRow := do
  let derived ← deriveVisible mv mv.aggregates row.state
  return { row with visible := row.visible.take mv.groupCount ++ derived }

def materializeAggregateResultRow (result : Tuple × List (Option Int)) :
    Except String AggregatePhysicalRow := do
  let derived ← deriveVisible mv mv.aggregates result.2
  return ⟨mv.encode result.1, result.1 ++ derived, result.2⟩

def materializeAggregateResult (mv : AggregateMv B) :
    List (Tuple × List (Option Int)) → Except String (List AggregatePhysicalRow)
  | [] => .ok []
  | result :: rest => do
    let row ← materializeAggregateResultRow mv result
    let rows ← materializeAggregateResult mv rest
    return row :: rows

/-! Loading rows, strictly from the table and leniently from a delta. -/

def validateLoadedCountState (name rowId : String) (star lenient : Bool) :
    Option Int → Except String Unit
  | none => .error ("aggregate MV state corruption: COUNT state column `" ++ name ++
      "` is NULL for row id `" ++ rowId ++ "`")
  | some n =>
    if lenient || 0 < n then .ok ()
    else if star then .error ("aggregate MV state corruption: COUNT state column `" ++ name ++
      "` must be positive for row id `" ++ rowId ++ "`")
    else if n = 0 then .ok ()
    else .error ("aggregate MV state corruption: COUNT state column `" ++ name ++
      "` must be non-negative for row id `" ++ rowId ++ "`")

def validateState (lenient : Bool) (row : AggregatePhysicalRow) (column : AggregateStateColumn B)
    (state : Option Int) : Except String Unit := do
  match column.kind with
  | .count star _ => validateLoadedCountState column.name row.rowId star lenient state
  | .sum _ _ => .ok ()
  guardThat (lenient || !column.single ||
      row.visible.getD column.visibleSourceIndex .null = stateCell state)
    ("aggregate MV state corruption: visible aggregate column does not match state column `" ++
      column.name ++ "` for row id `" ++ row.rowId ++ "`")

def validateStates (lenient : Bool) (row : AggregatePhysicalRow) :
    List (AggregateStateColumn B × Option Int) → Except String Unit
  | [] => .ok ()
  | (column, state) :: rest => do
    validateState lenient row column state
    validateStates lenient row rest

def validateLoadedPhysicalRow (lenient : Bool) (row : AggregatePhysicalRow) :
    Except String Unit := do
  guardThat (row.visible.length = mv.visibleCount)
    ("aggregate MV state corruption for row id `" ++ row.rowId ++ "`: visible column count mismatch")
  guardThat (row.state.length = mv.stateColumns.length)
    ("aggregate MV state corruption for row id `" ++ row.rowId ++ "`: state column count mismatch")
  guardThat (mv.encode (row.visible.take mv.groupCount) = row.rowId)
    ("aggregate MV state corruption: stored row id `" ++ row.rowId ++
      "` does not match visible group key row id")
  validateStates lenient row (mv.stateColumns.zip row.state)

def loadRows (mv : AggregateMv B) (lenient : Bool) (loaded : List AggregatePhysicalRow) :
    List AggregatePhysicalRow → Except String (List AggregatePhysicalRow)
  | [] => .ok loaded
  | row :: rest => do
    validateLoadedPhysicalRow mv lenient row
    guardThat (loaded.all fun other => other.rowId ≠ row.rowId)
      ("aggregate MV state corruption: duplicate row id `" ++ row.rowId ++ "`")
    loadRows mv lenient (loaded ++ [row]) rest

def stateOfCell : Value → Except String (Option Int)
  | .null => .ok none
  | .int i => .ok (some i)
  | _ => .error "aggregate MV state type mismatch: expected integer"

def statesOfCells : List Value → Except String (List (Option Int))
  | [] => .ok []
  | cell :: rest => do
    let state ← stateOfCell cell
    let states ← statesOfCells rest
    return state :: states

def physicalRowOfTuple : Tuple → Except String AggregatePhysicalRow
  | .text rowId :: cells => do
    guardThat (cells.length = mv.visibleCount + mv.stateColumns.length)
      "aggregate MV physical column count mismatch"
    let states ← statesOfCells (cells.drop mv.visibleCount)
    return ⟨rowId, cells.take mv.visibleCount, states⟩
  | .null :: _ => .error "aggregate MV physical row id cannot be NULL"
  | _ => .error "aggregate MV physical row id column must be Utf8"

def physicalRowsOfTuples (mv : AggregateMv B) : List Tuple → Except String (List AggregatePhysicalRow)
  | [] => .ok []
  | t :: rest => do
    let row ← physicalRowOfTuple mv t
    let rows ← physicalRowsOfTuples mv rest
    return row :: rows

def buildOldStateMap (table : List Tuple) :
    Except String (List AggregatePhysicalRow) := do
  let rows ← physicalRowsOfTuples mv table
  loadRows mv false [] rows

/-! Merging. -/

def checkedAdd (limit : Int) (name : String) (a b : Int) : Except String (Option Int) :=
  if -limit ≤ a + b ∧ a + b < limit then .ok (some (a + b))
  else .error ("aggregate MV state merge overflow for column `" ++ name ++ "`")

variable (column : AggregateStateColumn B)

def mergeStateValue (old delta : Option Int) : Except String (Option Int) :=
  match column.kind, old, delta with
  | .count _ _, some a, some b => checkedAdd SumType.int64.limit column.name a b
  | .count _ _, _, _ => .error ("aggregate MV state corruption: COUNT state column `" ++
      column.name ++ "` is NULL")
  | .sum type _, some a, some b => checkedAdd type.limit column.name a b
  | .sum _ _, some a, none => .ok (some a)
  | .sum _ _, none, delta => .ok delta

def zeroStateValue : Option Int :=
  match column.kind with
  | .count _ _ => some 0
  | .sum _ _ => none

def zeroBaseRow (delta : AggregatePhysicalRow) : AggregatePhysicalRow :=
  ⟨delta.rowId, delta.visible, mv.stateColumns.map zeroStateValue⟩

def mergeStates : List (AggregateStateColumn B) → List (Option Int) → List (Option Int) →
    Except String (List (Option Int))
  | column :: columns, old :: olds, delta :: deltas => do
    let value ← mergeStateValue column old delta
    let values ← mergeStates columns olds deltas
    return value :: values
  | _, _, _ => .ok []

def mergeRow (row delta : AggregatePhysicalRow) :
    Except String AggregatePhysicalRow := do
  guardThat (row.visible.length = mv.visibleCount && row.state.length = mv.stateColumns.length)
    ("aggregate MV state corruption for row id `" ++ row.rowId ++ "`: row shape does not match layout")
  let states ← mergeStates mv.stateColumns row.state delta.state
  updateVisibleValuesFromState mv { row with state := states }

def mergeDelta (merged : List AggregatePhysicalRow) (delta : AggregatePhysicalRow) :
    Except String (List AggregatePhysicalRow) :=
  match merged.find? fun row => row.rowId = delta.rowId with
  | some row => do
    let next ← mergeRow mv row delta
    return merged.map fun other => if other.rowId = delta.rowId then next else other
  | none => do
    let next ← mergeRow mv (zeroBaseRow mv delta) delta
    return merged ++ [next]

def mergeDeltas (mv : AggregateMv B) (merged : List AggregatePhysicalRow) :
    List AggregatePhysicalRow → Except String (List AggregatePhysicalRow)
  | [] => .ok merged
  | delta :: rest => do
    let merged ← mergeDelta mv merged delta
    mergeDeltas mv merged rest

def AggregateStateColumn.isCount : Bool :=
  match column.kind with
  | .count _ _ => true
  | .sum _ _ => false

/-- A row is given up where it has count states and all of them are zero. -/
def allCountStatesZero : Bool :=
  let counts := (mv.stateColumns.zip row.state).filter fun p => p.1.isCount
  !counts.isEmpty && counts.all fun p => p.2 = some 0

def mergeAggregateStateBatches (old deltas : List AggregatePhysicalRow) :
    Except String (List AggregatePhysicalRow) := do
  let deltas ← loadRows mv true [] deltas
  let merged ← mergeDeltas mv old deltas
  let kept := merged.filter fun row => !allCountStatesZero mv row
  return kept.insertionSort fun a b => a.rowId ≤ b.rowId

/-! Negation. -/

def negateStateValue : Option Int → Except String (Option Int)
  | none => .ok none
  | some v =>
    let limit := match column.kind with
      | .count _ _ => SumType.int64.limit
      | .sum type _ => type.limit
    if v = -limit then .error ("negate state column `" ++ column.name ++ "`: overflow")
    else .ok (some (-v))

def negateStates : List (AggregateStateColumn B) → List (Option Int) → Except String (List (Option Int))
  | column :: columns, state :: states => do
    let value ← negateStateValue column state
    let values ← negateStates columns states
    return value :: values
  | _, _ => .ok []

def negateAggregateStateRows (mv : AggregateMv B) :
    List AggregatePhysicalRow → Except String (List AggregatePhysicalRow)
  | [] => .ok []
  | row :: rest => do
    let states ← negateStates mv.stateColumns row.state
    let rows ← negateAggregateStateRows mv rest
    return { row with state := states } :: rows

end

end NovaRocks.Mv
