import NovaRocks.HashJoin.BuildSink

/-!
The probe side of a hash join. A core that has loaded the build artifact takes chunks of
probe rows, finds the groups of their keys and the rows of the groups, batch by batch, and
makes the rows of the join type. Joins that keep or test build rows mark the rows that were
matched; what follows from the marks is made when the input ends. The probe side is the left
side. A joined row has `none` in the place of a side that is filled with NULLs.
-/
namespace NovaRocks.HashJoin
open NovaRocks.Store

structure HashJoinProbeCore (β ν : Type) where
  buildLoaded : Bool
  buildBatches : List (List β)
  buildNullKeyRows : Option (List (List Nat))
  buildTable : Option (JoinHashTable ν)
  runtimeFilters : Option (List LocalRuntimeFilter)
  buildMatched : Option (List (List Bool))
  globalBuildRowCount : Nat
  globalBuildHasNullKey : Bool

def HashJoinProbeCore.new {β ν : Type} : HashJoinProbeCore β ν :=
  ⟨false, [], none, none, none, none, 0, false⟩

def JoinType.tracksBuild : JoinType → Bool
  | .fullOuter => true
  | .rightOuter => true
  | .rightSemi => true
  | .rightAnti => true
  | _ => false

section
variable {α β ν : Type} (node : JoinNode α β ν) (core : HashJoinProbeCore β ν) (probe : List α)

def JoinNode.setBuildArtifact (artifact : JoinBuildArtifact β ν) (globalRows : Nat)
    (globalHasNull : Bool) : HashJoinProbeCore β ν :=
  if core.buildLoaded then core
  else
    { buildLoaded := true
      buildBatches := artifact.buildBatches
      buildNullKeyRows := artifact.buildNullKeyRows
      buildTable := artifact.buildTable
      runtimeFilters := artifact.runtimeFilters
      buildMatched :=
        if node.joinType.tracksBuild then
          some (artifact.buildBatches.map fun batch => List.replicate batch.length false)
        else core.buildMatched
      globalBuildRowCount := globalRows
      globalBuildHasNullKey := globalHasNull }

/-! ### Runtime filters -/

def JoinNode.filterKey (filter : LocalRuntimeFilter) : Except String (α → Option ν) :=
  match node.probeKeys[filter.exprOrder]? with
  | none => .error (s!"runtime filter {filter.filterId} expects probe key index {filter.exprOrder}" ++
      s!" but only {node.probeKeys.length} keys are available")
  | some key => .ok key

def JoinNode.filterProbeChunk (filters : List LocalRuntimeFilter) (chunk : List α) :
    Except String (Option (List α)) :=
  if filters.isEmpty || chunk.isEmpty then .ok (some chunk)
  else if node.probeKeys.isEmpty then .ok (some chunk)
  else do
    let keys ← filters.mapM node.filterKey
    let kept := chunk.filter fun row => (keys.zip filters).all fun (key, filter) =>
      (key row).any fun value => filter.hashes.contains (node.hash value)
    if kept.isEmpty then .ok none else .ok (some kept)

def JoinType.appliesFilters : JoinType → Bool
  | .inner => true
  | .leftSemi => true
  | .rightSemi => true
  | _ => false

def JoinNode.applyRuntimeFilters (chunks : List (List α)) : Except String (List (List α)) :=
  if !node.joinType.appliesFilters then .ok chunks
  else
    match core.runtimeFilters with
    | none => .ok chunks
    | some filters => do
      let filtered ← chunks.mapM (node.filterProbeChunk filters)
      .ok (filtered.filterMap fun chunk => chunk.bind fun rows => if rows.isEmpty then none else some rows)

/-! ### Pairs of a probe row and a build row -/

def takeRow {γ : Type} (rows : List γ) (index : Nat) : Except String γ :=
  match rows[index]? with
  | some row => .ok row
  | none => .error "take index out of bounds"

def buildJoinBatch (batch : List β) (pairs : List (Nat × Nat)) : Except String (List (α × β)) :=
  pairs.mapM fun (probeRow, buildRow) => do
    let a ← takeRow probe probeRow
    let b ← takeRow batch buildRow
    .ok (a, b)

def placePair (probeRow : Nat) (pairsByBatch : List (List (Nat × Nat))) (location : Nat × Nat) :
    Except String (List (List (Nat × Nat))) :=
  match pairsByBatch[location.1]? with
  | none => .error "join row batch index out of bounds"
  | some pairs => .ok (pairsByBatch.set location.1 (pairs ++ [(probeRow, location.2)]))

/-- Does the residual predicate hold of the pair? NULL does not. -/
def JoinNode.passes (a : α) (b : β) : Bool :=
  match node.residualPredicate with
  | none => true
  | some predicate => predicate a b == some true

end

section
variable {α β ν : Type} [DecidableEq ν] (node : JoinNode α β ν) (core : HashJoinProbeCore β ν)
  (probe : List α)

def JoinHashTable.placeGroup (table : JoinHashTable ν) (pairsByBatch : List (List (Nat × Nat)))
    (probe : Option Nat × Nat) : Except String (List (List (Nat × Nat))) :=
  match probe.1 with
  | none => .ok pairsByBatch
  | some group => do
    let rows ← table.groupRowsSlice group
    let locations ← rows.mapM table.rowLocation
    locations.foldlM (placePair probe.2) pairsByBatch

def JoinNode.lookupGroupIds (table : JoinHashTable ν) (probe : List α) : Except String (List (Option Nat)) :=
  if probe.isEmpty then .ok []
  else if node.probeKeys.isEmpty then .error "join hash table does not support empty keys"
  else .ok (probe.map fun row => table.lookupGroupId (node.probeKey row))

def JoinNode.pairsByBatch (table : JoinHashTable ν) (batches : Nat) (probe : List α) :
    Except String (List (List (Nat × Nat))) := do
  let groups ← node.lookupGroupIds table probe
  groups.zipIdx.foldlM table.placeGroup (List.replicate batches [])

/-! ### Inner join -/

def crossJoinChunk (batch : List β) : List (α × β) :=
  probe.flatMap fun a => batch.map fun b => (a, b)

def JoinNode.keyedJoinChunk (batches : List (List β)) (table : JoinHashTable ν) (probe : List α) :
    Except String (List (List (α × β))) := do
  let pairs ← node.pairsByBatch table batches.length probe
  (batches.zip pairs).mapM fun (batch, pairs) => buildJoinBatch probe batch pairs

abbrev JoinedRow (α β : Type) :=
  Option α × Option β

def joined (pair : α × β) : JoinedRow α β :=
  (some pair.1, some pair.2)

def emit {γ : Type} (rows : List γ) : Option (List γ) :=
  if rows.isEmpty then none else some rows

section
variable (probeChunks : List (List α))

def JoinNode.joinInner : Except String (Option (List (JoinedRow α β))) :=
  if core.buildBatches.isEmpty then .ok none
  else if node.probeKeys.isEmpty then
    .ok (emit (((probeChunks.flatMap fun probe => core.buildBatches.flatMap (crossJoinChunk probe)).filter
      fun pair => node.passes pair.1 pair.2).map joined))
  else
    match core.buildTable with
    | none => .ok none
    | some table =>
      if table.isEmpty then .ok none
      else do
        let batches ← probeChunks.mapM (node.keyedJoinChunk core.buildBatches table)
        .ok (emit ((batches.flatten.flatten.filter fun pair => node.passes pair.1 pair.2).map joined))

/-! ### Outer joins -/

def setFlag (flags : List (List Bool)) (batch row : Nat) : List (List Bool) :=
  flags.modify batch fun batchFlags => batchFlags.set row true

structure OuterState (α β : Type) where
  probeMatched : List Bool
  buildMatched : Option (List (List Bool))
  output : List (JoinedRow α β)

def JoinNode.outerPair (batch : Nat) (state : OuterState α β) (candidate : (Nat × Nat) × (α × β)) :
    OuterState α β :=
  if node.passes candidate.2.1 candidate.2.2 then
    { probeMatched := state.probeMatched.set candidate.1.1 true
      buildMatched :=
        if node.joinType.tracksBuild then
          state.buildMatched.map fun flags => setFlag flags batch candidate.1.2
        else state.buildMatched
      output := state.output ++ [joined candidate.2] }
  else state

def JoinNode.outerBatch (state : OuterState α β) (numbered : (List β × List (Nat × Nat)) × Nat) :
    Except String (OuterState α β) := do
  let rows ← buildJoinBatch probe numbered.1.1 numbered.1.2
  .ok ((numbered.1.2.zip rows).foldl (node.outerPair numbered.2) state)

def JoinType.keepsProbe : JoinType → Bool
  | .leftOuter => true
  | .fullOuter => true
  | _ => false

def unmatchedProbe (matched : List Bool) : List (JoinedRow α β) :=
  ((probe.zip matched).filter fun pair => !pair.2).map fun pair => (some pair.1, none)

def JoinNode.outerChunk (state : Option (List (List Bool)) × List (JoinedRow α β)) (probe : List α)
    : Except String (Option (List (List Bool)) × List (JoinedRow α β)) :=
  if probe.isEmpty then .ok state
  else
    match core.buildTable with
    | some table =>
      if !table.isEmpty && !core.buildBatches.isEmpty then do
        let pairs ← node.pairsByBatch table core.buildBatches.length probe
        let outcome ← (core.buildBatches.zip pairs).zipIdx.foldlM (node.outerBatch probe)
          ⟨List.replicate probe.length false, state.1, []⟩
        .ok (outcome.buildMatched, state.2 ++ outcome.output ++
          if node.joinType.keepsProbe then unmatchedProbe probe outcome.probeMatched else [])
      else .ok (state.1, state.2 ++ if node.joinType.keepsProbe then probe.map (some ·, none) else [])
    | none => .ok (state.1, state.2 ++ if node.joinType.keepsProbe then probe.map (some ·, none) else [])

def JoinNode.joinOuter : Except String (HashJoinProbeCore β ν × Option (List (JoinedRow α β))) :=
  if node.probeKeys.isEmpty then .error "outer join requires non-empty eq join keys"
  else do
    let outcome ← probeChunks.foldlM (node.outerChunk core) (core.buildMatched, [])
    .ok ({ core with buildMatched := outcome.1 }, emit outcome.2)

/-! ### Semi and anti joins -/

def maxEvalPairs : Nat :=
  16384

def slices {γ : Type} (size : Nat) : Nat → List γ → List (List γ)
  | 0, _ => []
  | fuel + 1, items =>
    if items.isEmpty then [] else items.take size :: slices size fuel (items.drop size)

/-- The pairs of one slice whose probe row is not matched yet are evaluated together. -/
def JoinNode.residualSlice (batch : List β) (matched : List Bool) (slice : List (Nat × Nat)) :
    Except String (List Bool) := do
  guardThat (slice.all fun pair => decide (pair.1 < matched.length)) "join probe index out of bounds"
  let live := slice.filter fun pair => !(matched.getD pair.1 false)
  let rows ← buildJoinBatch probe batch live
  .ok ((live.zip rows).foldl
    (fun matched candidate =>
      if node.passes candidate.2.1 candidate.2.2 then matched.set candidate.1.1 true else matched) matched)

def JoinNode.residualBatch (matched : List Bool) (numbered : List β × List (Nat × Nat)) :
    Except String (List Bool) :=
  (slices maxEvalPairs numbered.2.length numbered.2).foldlM (node.residualSlice probe numbered.1) matched

section
variable (batches : List (List β))

def JoinNode.probeChunkMatchesResidual (table : JoinHashTable ν) (probe : List α) :
    Except String (List Bool) := do
  let pairs ← node.pairsByBatch table batches.length probe
  (batches.zip pairs).foldlM (node.residualBatch probe) (List.replicate probe.length false)

def JoinNode.probeMatches (table : JoinHashTable ν) (probe : List α) : Except String (List Bool) :=
  if node.residualPredicate.isSome then node.probeChunkMatchesResidual batches table probe
  else do
    let groups ← node.lookupGroupIds table probe
    .ok (groups.map Option.isSome)

def keepWhere {γ : Type} (rows : List γ) (mask : List Bool) : List γ :=
  ((rows.zip mask).filter Prod.snd).map Prod.fst

def JoinNode.semiAntiChunk (table : JoinHashTable ν) (wantMatched : Bool) (probe : List α) :
    Except String (List (JoinedRow α β)) := do
  let matched ← node.probeMatches batches table probe
  .ok ((keepWhere probe (matched.map fun flag => if wantMatched then flag else !flag)).map (some ·, none))

def JoinNode.leftSemiAnti (wantMatched : Bool) (probeChunks : List (List α)) :
    Except String (Option (List (JoinedRow α β))) :=
  match core.buildTable with
  | none => .ok (if wantMatched then none else some (probeChunks.flatten.map (some ·, none)))
  | some table =>
    if table.isEmpty || core.buildBatches.isEmpty then
      .ok (if wantMatched then none else some (probeChunks.flatten.map (some ·, none)))
    else do
      let rows ← probeChunks.mapM (node.semiAntiChunk core.buildBatches table wantMatched)
      .ok (emit rows.flatten)

def JoinNode.markPair (batch : Nat) (flags : List (List Bool)) (candidate : (Nat × Nat) × (α × β)) :
    List (List Bool) :=
  if node.passes candidate.2.1 candidate.2.2 then setFlag flags batch candidate.1.2 else flags

def JoinNode.markBatch (flags : List (List Bool)) (numbered : (List β × List (Nat × Nat)) × Nat) :
    Except String (List (List Bool)) := do
  let rows ← buildJoinBatch probe numbered.1.1 numbered.1.2
  .ok ((numbered.1.2.zip rows).foldl (node.markPair numbered.2) flags)

/-- Without a residual predicate the rows of a group are marked where they are found. -/
def JoinHashTable.markGroup (table : JoinHashTable ν) (flags : List (List Bool)) :
    Option Nat → Except String (List (List Bool))
  | none => .ok flags
  | some group => do
    let rows ← table.groupRowsSlice group
    let locations ← rows.mapM table.rowLocation
    .ok (locations.foldl (fun flags location => setFlag flags location.1 location.2) flags)

def JoinNode.markChunk (table : JoinHashTable ν) (flags : List (List Bool)) (probe : List α) :
    Except String (List (List Bool)) :=
  if probe.isEmpty then .ok flags
  else if node.residualPredicate.isNone then do
    let groups ← node.lookupGroupIds table probe
    groups.foldlM table.markGroup flags
  else do
    let pairs ← node.pairsByBatch table batches.length probe
    (batches.zip pairs).zipIdx.foldlM (node.markBatch probe) flags

def JoinNode.markBuildMatchesForSemiAnti : Except String (HashJoinProbeCore β ν) :=
  if probeChunks.isEmpty || core.buildBatches.isEmpty then .ok core
  else
    match core.buildTable, core.buildMatched with
    | some table, some flags =>
      if table.isEmpty then .ok core
      else do
        let marked ← probeChunks.foldlM (node.markChunk core.buildBatches table) flags
        .ok { core with buildMatched := some marked }
    | _, _ => .ok core

def JoinNode.joinSemiAnti : Except String (HashJoinProbeCore β ν × Option (List (JoinedRow α β))) :=
  if node.probeKeys.isEmpty then .error "semi/anti join requires non-empty eq join keys"
  else if node.joinType = .rightSemi ∨ node.joinType = .rightAnti then do
    let marked ← node.markBuildMatchesForSemiAnti core probeChunks
    .ok (marked, none)
  else do
    let rows ← node.leftSemiAnti core (node.joinType = .leftSemi) probeChunks
    .ok (core, rows)

/-! ### Null-aware anti join -/

def JoinNode.evalPairs (batch : List β) (state : List Bool × List (Nat × Nat)) :
    Except String (List Bool × List (Nat × Nat)) := do
  let rows ← buildJoinBatch probe batch state.2
  .ok ((state.2.zip rows).foldl
    (fun matched candidate =>
      if node.passes candidate.2.1 candidate.2.2 then matched.set candidate.1.1 true else matched) state.1, [])

def JoinNode.collectPair (batch : List β) (state : List Bool × List (Nat × Nat)) (pair : Nat × Nat)
    : Except String (List Bool × List (Nat × Nat)) :=
  let collected := (state.1, state.2 ++ [pair])
  if collected.2.length = maxEvalPairs then node.evalPairs probe batch collected else .ok collected

def JoinNode.collectRow (batch : List β) (buildRows : List Nat)
    (state : List Bool × List (Nat × Nat)) (probeRow : Nat) : Except String (List Bool × List (Nat × Nat)) :=
  if state.1.getD probeRow true then .ok state
  else (buildRows.map fun buildRow => (probeRow, buildRow)).foldlM (node.collectPair probe batch) state

def JoinNode.againstBatch (probeRows : List Nat) (matched : List Bool) (rows : List β × List Nat) :
    Except String (List Bool) :=
  if rows.2.isEmpty then .ok matched
  else do
    let collected ← probeRows.foldlM (node.collectRow probe rows.1 rows.2) (matched, [])
    let evaluated ← node.evalPairs probe rows.1 collected
    .ok evaluated.1

def JoinNode.matchesAgainstBuildRows (buildRowsByBatch : List (List Nat)) (chosen : List Bool) :
    Except String (List Bool) :=
  if batches.length ≠ buildRowsByBatch.length then
    .error (s!"join residual build rows size mismatch: batches={batches.length}" ++
      s!" row_sets={buildRowsByBatch.length}")
  else
    (batches.zip buildRowsByBatch).foldlM
      (node.againstBatch probe (keepWhere (List.range probe.length) chosen))
      (List.replicate probe.length false)

end

def JoinNode.matchedEqual : Except String (List Bool) :=
  match core.buildTable with
  | some table => node.probeChunkMatchesResidual core.buildBatches table probe
  | none => .ok (List.replicate probe.length false)

def JoinNode.matchedNullKey (nullRowsByBatch : List (List Nat)) (probe : List α) :
    Except String (List Bool) :=
  if nullRowsByBatch.isEmpty then .ok (List.replicate probe.length false)
  else node.matchesAgainstBuildRows probe core.buildBatches nullRowsByBatch
    (List.replicate probe.length true)

def JoinNode.matchedAny (probeNull : List Bool) : Except String (List Bool) :=
  if probeNull.any id then
    node.matchesAgainstBuildRows probe core.buildBatches
      (core.buildBatches.map fun batch => List.range batch.length) probeNull
  else .ok (List.replicate probe.length false)

def JoinNode.groupsOrNone : Except String (List (Option Nat)) :=
  match core.buildTable with
  | some table => node.lookupGroupIds table probe
  | none => .ok (List.replicate probe.length none)

def JoinNode.nullAwareKeep (nullRowsByBatch : List (List Nat)) (probe : List α) : Except String (List Bool) :=
  let probeNull := probe.map fun row => (node.probeKey row).any Option.isNone
  if node.residualPredicate.isSome then do
    let equal ← node.matchedEqual core probe
    let nullKey ← node.matchedNullKey core nullRowsByBatch probe
    let any ← node.matchedAny core probe probeNull
    .ok (((probeNull.zip any).zip (equal.zip nullKey)).map fun ((null, any), (equal, nullKey)) =>
      if null then !any else !(equal || nullKey))
  else do
    let groups ← node.groupsOrNone core probe
    .ok ((probeNull.zip groups).map fun (null, group) => !null && !group.isSome)

def JoinNode.joinNullAwareLeftAnti : Except String (Option (List (JoinedRow α β))) :=
  if node.probeKeys.isEmpty then .error "semi/anti join requires non-empty eq join keys"
  else if core.globalBuildRowCount = 0 then .ok (some (probeChunks.flatten.map (some ·, none)))
  else if node.residualPredicate.isNone && core.globalBuildHasNullKey then .ok none
  else if node.residualPredicate.isSome && core.buildNullKeyRows.isNone then
    .error "null-aware left anti join with residual requires build null-key rows"
  else
    let nullRowsByBatch := core.buildNullKeyRows.getD []
    if !nullRowsByBatch.isEmpty && nullRowsByBatch.length ≠ core.buildBatches.length then
      .error (s!"null-aware anti join build null-key rows size mismatch: batches={core.buildBatches.length}" ++
        s!" null_key_batches={nullRowsByBatch.length}")
    else do
      let rows ← probeChunks.mapM fun probe => do
        let keep ← node.nullAwareKeep core nullRowsByBatch probe
        .ok ((keepWhere probe keep).map fun row => (some row, none))
      .ok (emit rows.flatten)

/-! ### The join types -/

def JoinNode.joinProbeChunks : Except String (HashJoinProbeCore β ν × Option (List (JoinedRow α β))) :=
  if probeChunks.isEmpty then .ok (core, none)
  else do
    let filtered ← node.applyRuntimeFilters core probeChunks
    if filtered.isEmpty then .ok (core, none)
    else
      match node.joinType with
      | .inner => (node.joinInner core filtered).map fun out => (core, out)
      | .leftOuter => node.joinOuter core filtered
      | .rightOuter => node.joinOuter core filtered
      | .fullOuter => node.joinOuter core filtered
      | .leftSemi => node.joinSemiAnti core filtered
      | .rightSemi => node.joinSemiAnti core filtered
      | .leftAnti => node.joinSemiAnti core filtered
      | .rightAnti => node.joinSemiAnti core filtered
      | .nullAwareLeftAnti => (node.joinNullAwareLeftAnti core filtered).map fun out => (core, out)

end

/-! ### Build rows when the input has ended -/

def flaggedRows (batches : List (List β)) (flags : List (List Bool)) (want : Bool) :
    Except String (List (JoinedRow α β)) :=
  if batches.length ≤ flags.length then
    .ok (((batches.zip flags).flatMap fun (batch, matched) =>
      keepWhere batch (matched.map fun flag => if want then flag else !flag)).map (none, some ·))
  else .error "join build match flags missing"

def HashJoinProbeCore.buildFullOuterUnmatched (flags : List (List Bool)) :
    Except String (Option (List (JoinedRow α β))) := do
  let rows ← flaggedRows core.buildBatches flags false
  .ok (emit rows)

def HashJoinProbeCore.buildRightSemiAntiOutput (flags : List (List Bool)) (wantMatched : Bool) :
    Except String (Option (List (JoinedRow α β))) := do
  let rows ← flaggedRows core.buildBatches flags wantMatched
  .ok (emit rows)

def mergeJoinOutputs (left right : Option (List (JoinedRow α β))) : Option (List (JoinedRow α β)) :=
  match left, right with
  | none, none => none
  | some rows, none => some rows
  | none, some rows => some rows
  | some rows, some more => some (rows ++ more)

end

end NovaRocks.HashJoin
