import NovaRocks.HashJoin.ProbeCore
import NovaRocks.Store.Parties

/-!
A broadcast join: one build side, published once to any number of probe drivers. A driver
loads the artifact before its first chunk, joins each chunk as it comes and, when its input
has ended, gives its marks of matched build rows to a shared merge; the driver whose marks
come last makes the rows that depend on all of them. The calls of the drivers interleave in
any order their own tests `needInput` and `hasOutput` permit.
-/
namespace NovaRocks.HashJoin
open NovaRocks.Store

/-! ### The shared state -/

structure BuildMatchMerge where
  merged : List (List Bool)
  driversMerged : Nat
  totalDrivers : Nat

structure BroadcastJoinSharedState (β ν : Type) where
  build : Option (JoinBuildArtifact β ν)
  buildMatchMerge : Option BuildMatchMerge
  totalProbeDrivers : Nat

def BroadcastJoinSharedState.new {β ν : Type} (totalProbeDrivers : Nat) : BroadcastJoinSharedState β ν :=
  ⟨none, none, totalProbeDrivers⟩

def BroadcastJoinSharedState.setBuild {β ν : Type} (state : BroadcastJoinSharedState β ν)
    (artifact : JoinBuildArtifact β ν) : Except String (BroadcastJoinSharedState β ν) :=
  if state.build.isSome then .error "broadcast join build already set"
  else .ok { state with build := some artifact }

def matchedPlaces (flags : List (List Bool)) : List (Nat × Nat) :=
  flags.zipIdx.flatMap fun (batchFlags, batch) =>
    (batchFlags.zipIdx.filter Prod.fst).map fun (_, row) => (batch, row)

def orFlags (merged own : List (List Bool)) : List (List Bool) :=
  (matchedPlaces own).foldl (fun flags place => setFlag flags place.1 place.2) merged

def BroadcastJoinSharedState.mergeBuildMatched {β ν : Type} (state : BroadcastJoinSharedState β ν)
    (own : List (List Bool)) : BroadcastJoinSharedState β ν × Option (List (List Bool)) :=
  let merge := state.buildMatchMerge.getD
    ⟨own.map fun batch => List.replicate batch.length false, 0, state.totalProbeDrivers⟩
  let merged := orFlags merge.merged own
  if merge.driversMerged + 1 = merge.totalDrivers then
    ({ state with buildMatchMerge := some ⟨[], merge.driversMerged + 1, merge.totalDrivers⟩ }, some merged)
  else
    ({ state with buildMatchMerge := some ⟨merged, merge.driversMerged + 1, merge.totalDrivers⟩ }, none)

/-! ### One probe driver -/

structure BroadcastJoinProbeProcessor (α β ν : Type) where
  buffered : List (List α)
  pendingOutput : Option (List (JoinedRow α β))
  finishing : Bool
  finishingDone : Bool
  finished : Bool
  core : HashJoinProbeCore β ν

section
variable {α β ν : Type} (node : JoinNode α β ν) (state : BroadcastJoinSharedState β ν)
  (driver : BroadcastJoinProbeProcessor α β ν)

def BroadcastJoinProbeProcessor.create : BroadcastJoinProbeProcessor α β ν :=
  ⟨[], none, false, false, false, .new⟩

def BroadcastJoinProbeProcessor.needInput (state : BroadcastJoinSharedState β ν) : Bool :=
  if driver.finishing || driver.finished || driver.pendingOutput.isSome then false
  else driver.core.buildLoaded || state.build.isSome

def BroadcastJoinProbeProcessor.hasOutput (state : BroadcastJoinSharedState β ν) : Bool :=
  if driver.pendingOutput.isSome then true
  else driver.finishing && !driver.finishingDone && (driver.core.buildLoaded || state.build.isSome)

def JoinNode.loadBuildSide : Except String (BroadcastJoinProbeProcessor α β ν) :=
  if driver.core.buildLoaded then .ok driver
  else
    match state.build with
    | none => .error "broadcast join build not ready"
    | some artifact => .ok { driver with
        core := node.setBuildArtifact driver.core artifact artifact.buildRowCount artifact.buildHasNullKey }

def collectProbeChunks (buffered : List (List α)) (chunk : Option (List α)) : List (List α) :=
  (buffered ++ chunk.toList).filter fun rows => !rows.isEmpty

end

section
variable {α β ν : Type} [DecidableEq ν] (node : JoinNode α β ν) (state : BroadcastJoinSharedState β ν)
  (driver : BroadcastJoinProbeProcessor α β ν)

def JoinNode.processOne (chunk : List α) : Except String (BroadcastJoinProbeProcessor α β ν) := do
  let joined ← node.joinProbeChunks driver.core (collectProbeChunks driver.buffered (some chunk))
  .ok { driver with buffered := [], core := joined.1, pendingOutput := joined.2 }

def JoinNode.pushChunk (chunk : List α) : Except String (BroadcastJoinProbeProcessor α β ν) :=
  if driver.finished then .ok driver
  else if driver.finishing then .error "broadcast join probe received input after set_finishing"
  else if driver.pendingOutput.isSome then
    .error "broadcast join probe received input while output buffer is full"
  else do
    let loaded ← node.loadBuildSide state driver
    node.processOne loaded chunk

/-- The marks are merged, and the last driver makes the build rows they decide. -/
def JoinNode.finishMerged (core : HashJoinProbeCore β ν) (out : Option (List (JoinedRow α β))) :
    Except String (BroadcastJoinSharedState β ν × Option (List (JoinedRow α β))) :=
  let merge := state.mergeBuildMatched (core.buildMatched.getD [])
  match node.joinType with
  | .rightAnti =>
    match merge.2 with
    | none => .ok (merge.1, none)
    | some merged => do
      let rows ← core.buildRightSemiAntiOutput merged false
      .ok (merge.1, mergeJoinOutputs none rows)
  | .rightSemi =>
    match merge.2 with
    | none => .ok (merge.1, none)
    | some merged => do
      let rows ← core.buildRightSemiAntiOutput merged true
      .ok (merge.1, mergeJoinOutputs none rows)
  | .fullOuter =>
    match merge.2 with
    | none => .ok (merge.1, out)
    | some merged => do
      let rows ← core.buildFullOuterUnmatched merged
      .ok (merge.1, mergeJoinOutputs out rows)
  | .rightOuter =>
    match merge.2 with
    | none => .ok (merge.1, out)
    | some merged => do
      let rows ← core.buildFullOuterUnmatched merged
      .ok (merge.1, mergeJoinOutputs out rows)
  | _ => .ok (state, out)

def JoinNode.takeBuildMatched (core : HashJoinProbeCore β ν) : HashJoinProbeCore β ν :=
  if node.joinType.tracksBuild then { core with buildMatched := none } else core

def JoinNode.finishOne :
    Except String (BroadcastJoinSharedState β ν × BroadcastJoinProbeProcessor α β ν) := do
  let loaded ← node.loadBuildSide state driver
  let joined ← node.joinProbeChunks loaded.core (collectProbeChunks loaded.buffered none)
  let ended ← node.finishMerged state joined.1 joined.2
  .ok (ended.1, { loaded with
    buffered := []
    core := node.takeBuildMatched joined.1
    pendingOutput := ended.2
    finishingDone := true })

def JoinNode.finishIfEnded :
    Except String (BroadcastJoinSharedState β ν × BroadcastJoinProbeProcessor α β ν) :=
  if driver.pendingOutput.isNone && driver.finishing && !driver.finishingDone then
    node.finishOne state driver
  else .ok (state, driver)

def JoinNode.pullChunk :
    Except String ((BroadcastJoinSharedState β ν × BroadcastJoinProbeProcessor α β ν) ×
      Option (List (JoinedRow α β))) := do
  let ended ← node.finishIfEnded state driver
  let taken := { ended.2 with
    pendingOutput := none
    finished := ended.2.finished || (ended.2.finishing && ended.2.finishingDone) }
  .ok ((ended.1, taken), ended.2.pendingOutput)

def BroadcastJoinProbeProcessor.setFinishing : BroadcastJoinProbeProcessor α β ν :=
  if driver.finished then driver else { driver with finishing := true }

/-! ### All drivers together -/

structure BroadcastJoin (n : Nat) (α β ν : Type) where
  shared : BroadcastJoinSharedState β ν
  drivers : Fin n → BroadcastJoinProbeProcessor α β ν
  /-- The probe rows each driver has been given. -/
  received : Fin n → List α
  /-- The rows each driver has handed out. -/
  emitted : Fin n → List (JoinedRow α β)

def BroadcastJoin.start (n : Nat) : BroadcastJoin n α β ν :=
  ⟨.new n, fun _ => .create, fun _ => [], fun _ => []⟩

inductive BroadcastCall (n : Nat) (α : Type) where
  | setBuild
  | push (driver : Fin n) (chunk : List α)
  | pull (driver : Fin n)
  | finish (driver : Fin n)

variable {n : Nat}

/-- The calls the pipeline makes: the build side is set once, and a driver is only asked for
what it says it is ready for. -/
def BroadcastJoin.permits (system : BroadcastJoin n α β ν) : BroadcastCall n α → Bool
  | .setBuild => system.shared.build.isNone
  | .push driver _ => (system.drivers driver).needInput system.shared
  | .pull driver => (system.drivers driver).hasOutput system.shared
  | .finish _ => true

def JoinNode.perform (node : JoinNode α β ν) (artifact : JoinBuildArtifact β ν) (system : BroadcastJoin n α β ν) :
    BroadcastCall n α → Except String (BroadcastJoin n α β ν)
  | .setBuild => do
    let shared ← system.shared.setBuild artifact
    .ok { system with shared := shared }
  | .push driver chunk => do
    let pushed ← node.pushChunk system.shared (system.drivers driver) chunk
    .ok { system with
      drivers := Function.update system.drivers driver pushed
      received := Function.update system.received driver (system.received driver ++ chunk) }
  | .pull driver => do
    let pulled ← node.pullChunk system.shared (system.drivers driver)
    .ok { system with
      shared := pulled.1.1
      drivers := Function.update system.drivers driver pulled.1.2
      emitted := Function.update system.emitted driver (system.emitted driver ++ pulled.2.getD []) }
  | .finish driver =>
    .ok { system with
      drivers := Function.update system.drivers driver (system.drivers driver).setFinishing }

inductive Reached (node : JoinNode α β ν) (artifact : JoinBuildArtifact β ν) (n : Nat) :
    BroadcastJoin n α β ν → Prop where
  | start : Reached node artifact n (.start n)
  | call {system next : BroadcastJoin n α β ν} (reached : Reached node artifact n system)
      (call : BroadcastCall n α) (permitted : system.permits call = true)
      (done : node.perform artifact system call = .ok next) : Reached node artifact n next

end

end NovaRocks.HashJoin
