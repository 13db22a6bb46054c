import NovaRocks.HashJoin.TableGroups

/-!
The build side of a hash join. The sink keeps the build batches, adds their keys to the
table and collects what the probe side needs besides. When its input ends it hands all this
over as the build artifact. Key and residual expressions are functions of the rows. Two
invariants come from the lowering: there is a null-safe flag for each pair of keys, and no
runtime filter on a null-safe key.
-/
namespace NovaRocks.HashJoin
open NovaRocks.Store

inductive JoinType where
  | inner
  | leftOuter
  | rightOuter
  | fullOuter
  | leftSemi
  | rightSemi
  | leftAnti
  | rightAnti
  | nullAwareLeftAnti
  deriving DecidableEq

structure JoinRuntimeFilterSpec where
  filterId : Int
  exprOrder : Nat

structure JoinNode (α β ν : Type) where
  joinType : JoinType
  probeKeys : List (α → Option ν)
  buildKeys : List (β → Option ν)
  eqNullSafe : List Bool
  residualPredicate : Option (α → β → Option Bool)
  runtimeFilters : List JoinRuntimeFilterSpec
  hash : ν → Nat
  sameKeys : probeKeys.length = buildKeys.length
  flagEach : eqNullSafe.length = buildKeys.length
  filtersPlain : ∀ spec ∈ runtimeFilters, eqNullSafe[spec.exprOrder]? = some false

section
variable {α β ν : Type}

section
variable (node : JoinNode α β ν)

def JoinNode.probeKey (row : α) : List (Option ν) :=
  node.probeKeys.map fun key => key row

def JoinNode.buildKey (row : β) : List (Option ν) :=
  node.buildKeys.map fun key => key row

/-! ### Runtime filters of the local join -/

structure LocalRuntimeFilter where
  filterId : Int
  exprOrder : Nat
  hashes : List Nat

def newFilters (specs : List JoinRuntimeFilterSpec) : List LocalRuntimeFilter :=
  specs.map fun spec => ⟨spec.filterId, spec.exprOrder, []⟩

def JoinNode.addBuildArray (chunk : List β) (filter : LocalRuntimeFilter) :
    Except String LocalRuntimeFilter :=
  match node.buildKeys[filter.exprOrder]? with
  | none => .error (s!"runtime filter {filter.filterId} expects build key index {filter.exprOrder}" ++
      s!" but only {node.buildKeys.length} keys are available")
  | some key => .ok { filter with
      hashes := filter.hashes ++ chunk.filterMap fun row => (key row).map node.hash }

/-! ### The sink -/

structure JoinBuildArtifact (β ν : Type) where
  buildBatches : List (List β)
  buildTable : Option (JoinHashTable ν)
  buildRowCount : Nat
  buildHasNullKey : Bool
  buildNullKeyRows : Option (List (List Nat))
  runtimeFilters : Option (List LocalRuntimeFilter)

structure HashJoinBuildSink (β ν : Type) where
  buildBatches : List (List β)
  buildTable : Option (JoinHashTable ν)
  runtimeFilters : Option (List LocalRuntimeFilter)
  buildRowCount : Nat
  buildHasNullKey : Bool
  buildNullKeyRows : Option (List (List Nat))

def JoinNode.newSink : HashJoinBuildSink β ν :=
  ⟨[], none, none, 0, false, if node.joinType = .nullAwareLeftAnti then some [] else none⟩

def JoinNode.nullKeyRows (chunk : List β) : List Nat :=
  (chunk.zipIdx.filter fun (row, _) => rowHasForbiddenNull node.eqNullSafe (node.buildKey row)).map
    Prod.snd

end

variable [DecidableEq ν] (node : JoinNode α β ν)

def JoinNode.tableOrNew : Option (JoinHashTable ν) →
    Except String (JoinHashTable ν)
  | some table => .ok table
  | none => JoinHashTable.new node.eqNullSafe node.buildKeys.length

def JoinNode.addToTable (table : Option (JoinHashTable ν)) (chunk : List β) (batchIndex : Nat) :
    Except String (JoinHashTable ν) := do
  let table ← node.tableOrNew table
  table.addBuildBatch node.buildKeys.length (chunk.map node.buildKey) batchIndex

def JoinNode.addToFilters (filters : Option (List LocalRuntimeFilter)) (chunk : List β) :
    Except String (Option (List LocalRuntimeFilter)) :=
  if node.runtimeFilters.isEmpty then .ok filters
  else do
    let added ← (filters.getD (newFilters node.runtimeFilters)).mapM (node.addBuildArray chunk)
    .ok (some added)

def JoinNode.pushKeys (sink : HashJoinBuildSink β ν) (chunk : List β) (batchIndex : Nat) :
    Except String (HashJoinBuildSink β ν) := do
  guardThat (node.eqNullSafe.length = node.buildKeys.length)
    (s!"hash join build null-safe key count mismatch: flags={node.eqNullSafe.length}" ++
      s!" keys={node.buildKeys.length}")
  let table ← node.addToTable sink.buildTable chunk batchIndex
  let filters ← node.addToFilters sink.runtimeFilters chunk
  .ok { sink with
    buildHasNullKey := sink.buildHasNullKey || chunk.any fun row => (node.buildKey row).any Option.isNone
    buildNullKeyRows := sink.buildNullKeyRows.map fun rows => rows ++ [node.nullKeyRows chunk]
    buildTable := some table
    runtimeFilters := filters }

def JoinNode.pushBuildChunk (sink : HashJoinBuildSink β ν) (chunk : List β) :
    Except String (HashJoinBuildSink β ν) :=
  if chunk.isEmpty then .ok sink
  else do
    guardThat (sink.buildBatches.length ≤ u32Max) "join build batch index overflow"
    let kept := { sink with
      buildRowCount := sink.buildRowCount + chunk.length
      buildBatches := sink.buildBatches ++ [chunk] }
    if node.buildKeys.isEmpty then .ok kept
    else node.pushKeys kept chunk sink.buildBatches.length

def JoinNode.publishFilters (filters : Option (List LocalRuntimeFilter)) :
    Except String (Option (List LocalRuntimeFilter)) :=
  if node.runtimeFilters.isEmpty then .ok filters
  else if node.buildKeys.isEmpty then .error "runtime filters require join build keys"
  else .ok (some (filters.getD (newFilters node.runtimeFilters)))

def finalizeTable : Option (JoinHashTable ν) → Except String (Option (JoinHashTable ν))
  | none => .ok none
  | some table => table.finalizeGroups.map some

def JoinNode.setFinishing (sink : HashJoinBuildSink β ν) :
    Except String (JoinBuildArtifact β ν) := do
  let table ← finalizeTable sink.buildTable
  let filters ← node.publishFilters sink.runtimeFilters
  .ok ⟨sink.buildBatches, table, sink.buildRowCount, sink.buildHasNullKey, sink.buildNullKeyRows, filters⟩

def JoinNode.build (chunks : List (List β)) :
    Except String (JoinBuildArtifact β ν) := do
  let sink ← chunks.foldlM node.pushBuildChunk node.newSink
  node.setFinishing sink

end

end NovaRocks.HashJoin
