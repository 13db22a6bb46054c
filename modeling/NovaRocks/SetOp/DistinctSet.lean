import Mathlib.Algebra.Ring.Nat
import NovaRocks.Store.Checked
import NovaRocks.Store.Parties

/-!
INTERSECT and EXCEPT. The rows of the first input are put into a table, each with a marker;
the rows of the other inputs change the markers of the rows they equal, and at the end a
source hands out the rows whose markers are as the operation wants them. Each input has one
or more producers, and a stage counter says which inputs may be read: the last producer of an
input sets it when it finishes.
-/
namespace NovaRocks.SetOp
open NovaRocks.Store

/-! ### Stages -/

structure SetOpStageController where
  currentStage : Nat
  remainingProducers : List Nat
  stageTotal : Nat

namespace SetOpStageController

def new (opName : String) (stageProducerCounts : List Nat) : Except String SetOpStageController :=
  if stageProducerCounts.length < 2 then
    .error s!"{opName} expects at least 2 inputs, got {stageProducerCounts.length}"
  else .ok ⟨0, stageProducerCounts.map fun count => max count 1, stageProducerCounts.length⟩

def isStageReady (controller : SetOpStageController) (stage : Nat) : Bool :=
  stage ≤ controller.currentStage

/-- The last producer of a stage sets the counter, whatever it was. -/
def producerFinished (controller : SetOpStageController) (stage : Nat) : Except String SetOpStageController :=
  match controller.remainingProducers[stage]? with
  | none => .error s!"set-op stage out of bounds: stage={stage}"
  | some remaining => .ok { controller with
      remainingProducers := controller.remainingProducers.set stage (remaining - 1)
      currentStage := if remaining = 1 then stage + 1 else controller.currentStage }

end SetOpStageController

/-! ### Markers -/

structure DistinctSetSemantics (M : Type) where
  nodeName : String
  groupIdSequenceMismatch : String
  groupIdOutOfBounds : String
  newMarker : M
  applyProbe : M → Nat → Except String M
  markerSelected : M → Nat → Except String Bool

/-- A row of the first input is marked when another input has it. -/
def exceptSemantics : DistinctSetSemantics Bool where
  nodeName := "EXCEPT_NODE"
  groupIdSequenceMismatch := "except group id sequence mismatch"
  groupIdOutOfBounds := "except deleted flag group id out of bounds"
  newMarker := false
  applyProbe := fun _ _ => .ok true
  markerSelected := fun marker _ => .ok !marker

def u16TryFrom (value : Nat) : Except String Nat :=
  if value ≤ 65535 then .ok value else .error "intersect stage overflow"

/-- The marker counts the inputs that had the row, as long as none was missed. -/
def intersectSemantics : DistinctSetSemantics Nat where
  nodeName := "INTERSECT_NODE"
  groupIdSequenceMismatch := "intersect group id sequence mismatch"
  groupIdOutOfBounds := "intersect hit_times group id out of bounds"
  newMarker := 0
  applyProbe := fun marker stage => do
    let stageU16 ← u16TryFrom stage
    let prevU16 ← u16TryFrom (stage - 1)
    .ok (if marker = prevU16 then stageU16 else marker)
  markerSelected := fun marker stageTotal => do
    let finalHit ← u16TryFrom (stageTotal - 1)
    .ok (marker == finalHit)

/-! ### The shared table -/

/-- The distinct rows in the order they came, and a marker for each; there is no table before
the first row. -/
structure DistinctSetInner (α M : Type) where
  keyTable : Option (List α)
  markers : List M

section
variable {α M : Type} [DecidableEq α] (semantics : DistinctSetSemantics M)

def ingestBuildRow (state : List α × List M) (row : α) : Except String (List α × List M) :=
  if row ∈ state.1 then .ok state
  else if state.1.length ≠ state.2.length then .error semantics.groupIdSequenceMismatch
  else .ok (state.1 ++ [row], state.2 ++ [semantics.newMarker])

section
variable (inner : DistinctSetInner α M)

def ingestBuild (chunk : List α) : Except String (DistinctSetInner α M) :=
  if chunk.isEmpty then .ok inner
  else do
    let filled ← chunk.foldlM (ingestBuildRow semantics) (inner.keyTable.getD [], inner.markers)
    .ok ⟨some filled.1, filled.2⟩

def ingestProbeRow (stage : Nat) (keys : List α) (markers : List M) (row : α) : Except String (List M) :=
  match keys.idxOf? row with
  | none => .ok markers
  | some groupId =>
    match markers[groupId]? with
    | none => .error semantics.groupIdOutOfBounds
    | some marker => do
      let changed ← semantics.applyProbe marker stage
      .ok (markers.set groupId changed)

def ingestProbe (stage : Nat) (chunk : List α) : Except String (DistinctSetInner α M) :=
  if chunk.isEmpty then .ok inner
  else
    match inner.keyTable with
    | none => .ok inner
    | some keys => do
      let markers ← chunk.foldlM (ingestProbeRow semantics stage keys) inner.markers
      .ok { inner with markers := markers }

/-- The ids of the selected rows; ids are cut to 32 bits. -/
def selectedGroups (stageTotal : Nat) : Nat → List M → Except String (List Nat)
  | _, [] => .ok []
  | groupId, marker :: markers => do
    let selected ← semantics.markerSelected marker stageTotal
    let rest ← selectedGroups stageTotal (groupId + 1) markers
    .ok (if selected then groupId % 2 ^ 32 :: rest else rest)

def snapshotOutput (stageTotal : Nat) : Except String (List α × List Nat) :=
  match inner.keyTable with
  | none => .ok ([], [])
  | some keys =>
    if inner.markers.isEmpty then .ok ([], [])
    else do
      let indices ← selectedGroups semantics stageTotal 0 inner.markers
      .ok (keys, indices)

/-! ### The operators -/

/-- A producer: the chunks that are still to come from it, and whether its sink has finished. -/
structure DistinctSetSink (α : Type) where
  stage : Nat
  left : List (List α)
  finished : Bool

structure DistinctSetSource (α : Type) where
  prepared : Bool
  finished : Bool
  keys : List α
  indices : List Nat
  offset : Nat

def chunkSize (batchSize : Option Int) : Nat :=
  max (((batchSize.filter fun size => 0 < size).map Int.toNat).getD 4096) 1

def ingest (stage : Nat) (chunk : List α) : Except String (DistinctSetInner α M) :=
  if stage = 0 then ingestBuild semantics inner chunk else ingestProbe semantics inner stage chunk

end

def DistinctSetSource.prepare (source : DistinctSetSource α) (inner : DistinctSetInner α M)
    (stageTotal : Nat) : Except String (DistinctSetSource α) :=
  if source.prepared then .ok source
  else do
    let output ← snapshotOutput semantics inner stageTotal
    .ok { source with keys := output.1, indices := output.2, prepared := true }

def DistinctSetSource.slice (source : DistinctSetSource α) (batchSize : Option Int) :
    DistinctSetSource α × Option (List α) :=
  if source.indices.length ≤ source.offset then ({ source with finished := true }, none)
  else
    let stop := min (source.offset + chunkSize batchSize) source.indices.length
    let rows := (source.indices.drop source.offset).take (stop - source.offset)
    ({ source with offset := stop }, some (rows.filterMap (source.keys[·]?)))

def DistinctSetSource.pullChunk (source : DistinctSetSource α) (inner : DistinctSetInner α M)
    (controller : SetOpStageController) (batchSize : Option Int) :
    Except String (DistinctSetSource α × Option (List α)) :=
  if source.finished then .ok (source, none)
  else if !controller.isStageReady controller.stageTotal then .ok (source, none)
  else do
    let prepared ← source.prepare semantics inner controller.stageTotal
    .ok (prepared.slice batchSize)

end

/-! ### All operators together -/

/-- Two or more inputs, each with its producers, and the chunks each producer gets. -/
structure SetOpPlan (n : Nat) (α : Type) where
  stageTotal : Nat
  stage : Fin n → Nat
  chunks : Fin n → List (List α)
  batchSize : Option Int
  several : 2 ≤ stageTotal
  inRange : ∀ producer, stage producer < stageTotal
  produced : ∀ input, input < stageTotal → ∃ producer, stage producer = input

structure SetOpSystem (n : Nat) (α M : Type) where
  controller : SetOpStageController
  inner : DistinctSetInner α M
  sinks : Fin n → DistinctSetSink α
  source : DistinctSetSource α
  /-- The chunks the source has handed out. -/
  emitted : List (List α)

inductive SetOpCall (n : Nat) where
  | push (producer : Fin n)
  | finish (producer : Fin n)
  | pull

section
variable {n : Nat} {α M : Type}

def SetOpPlan.producers (plan : SetOpPlan n α) (input : Nat) : Nat :=
  counted fun producer => plan.stage producer == input

def SetOpPlan.start (plan : SetOpPlan n α) (semantics : DistinctSetSemantics M) :
    Except String (SetOpSystem n α M) := do
  let controller ← SetOpStageController.new semantics.nodeName
    ((List.range plan.stageTotal).map plan.producers)
  .ok ⟨controller, ⟨none, []⟩, fun producer => ⟨plan.stage producer, plan.chunks producer, false⟩,
    ⟨false, false, [], [], 0⟩, []⟩

def DistinctSetSink.needInput (sink : DistinctSetSink α) (controller : SetOpStageController) : Bool :=
  !sink.finished && controller.isStageReady sink.stage

/-- The calls of the driver: a chunk goes to a sink that takes input, a sink is finished once
nothing is left for it, and the source is asked when it has output. -/
def SetOpSystem.permits (system : SetOpSystem n α M) : SetOpCall n → Bool
  | .push producer =>
    !(system.sinks producer).left.isEmpty && (system.sinks producer).needInput system.controller
  | .finish producer => (system.sinks producer).left.isEmpty && !(system.sinks producer).finished
  | .pull => !system.source.finished && system.controller.isStageReady system.controller.stageTotal

variable [DecidableEq α]

def SetOpPlan.perform (plan : SetOpPlan n α) (semantics : DistinctSetSemantics M)
    (system : SetOpSystem n α M) : SetOpCall n → Except String (SetOpSystem n α M)
  | .push producer => do
    let sink := system.sinks producer
    let inner ← ingest semantics system.inner sink.stage (sink.left.headD [])
    .ok { system with
      inner := inner
      sinks := Function.update system.sinks producer { sink with left := sink.left.tail } }
  | .finish producer => do
    let sink := system.sinks producer
    let controller ← system.controller.producerFinished sink.stage
    .ok { system with
      controller := controller
      sinks := Function.update system.sinks producer { sink with finished := true } }
  | .pull => do
    let pulled ← system.source.pullChunk semantics system.inner system.controller plan.batchSize
    .ok { system with source := pulled.1, emitted := system.emitted ++ pulled.2.toList }

inductive SetOpPlan.Reached (plan : SetOpPlan n α) (semantics : DistinctSetSemantics M) :
    SetOpSystem n α M → Prop where
  | start {system : SetOpSystem n α M} (made : plan.start semantics = .ok system) :
      plan.Reached semantics system
  | call {system next : SetOpSystem n α M} (reached : plan.Reached semantics system) (call : SetOpCall n)
      (permitted : system.permits call = true) (done : plan.perform semantics system call = .ok next) :
      plan.Reached semantics next

end

end NovaRocks.SetOp
