import NovaRocks.HashJoin.BuildSink

/-!
What the build sink hands over. After every chunk the sink holds the batches so far, and
its table their rows; the artifact holds all of them. The sink fails only when the rows
or the batches are too many to be numbered in 32 bits.
-/
namespace NovaRocks.HashJoin
open NovaRocks.Store List

section
variable {α β ν : Type} [DecidableEq ν]

def JoinNode.entriesFrom (node : JoinNode α β ν) : Nat → List (List β) → List (Entry ν)
  | _, [] => []
  | first, batch :: batches =>
    batchEntries (batch.map node.buildKey) first ++ node.entriesFrom (first + 1) batches

omit [DecidableEq ν] in
theorem entriesFrom_concat (node : JoinNode α β ν) (batch : List β) (batches : List (List β)) :
    ∀ first, node.entriesFrom first (batches ++ [batch]) =
      node.entriesFrom first batches ++ batchEntries (batch.map node.buildKey) (first + batches.length) := by
  induction batches with
  | nil => intro first; simp [JoinNode.entriesFrom]
  | cons head batches ih =>
    intro first
    rw [cons_append, JoinNode.entriesFrom, JoinNode.entriesFrom, ih, append_assoc,
      length_cons, Nat.add_assoc, Nat.add_comm 1]

omit [DecidableEq ν] in
theorem length_entriesFrom (node : JoinNode α β ν) (batches : List (List β)) :
    ∀ first, (node.entriesFrom first batches).length = batches.flatten.length := by
  induction batches with
  | nil => intro first; rfl
  | cons batch batches ih =>
    simp [JoinNode.entriesFrom, ih]

structure FiltersHold (node : JoinNode α β ν) (filters : List LocalRuntimeFilter) (rows : List β) :
    Prop where
  plain : ∀ filter ∈ filters, node.eqNullSafe[filter.exprOrder]? = some false
  knows : ∀ filter ∈ filters, ∀ key, node.buildKeys[filter.exprOrder]? = some key →
    ∀ row ∈ rows, ∀ value, key row = some value → node.hash value ∈ filter.hashes

structure SinkHolds (node : JoinNode α β ν) (sink : HashJoinBuildSink β ν) (batches : List (List β)) :
    Prop where
  kept : sink.buildBatches = batches
  full : ∀ batch ∈ batches, batch ≠ []
  count : sink.buildRowCount = batches.flatten.length
  keyless : node.buildKeys = [] → sink.buildTable = none ∧ sink.runtimeFilters = none
  untabled : sink.buildTable = none → node.buildKeys = [] ∨ batches = []
  table : ∀ table, sink.buildTable = some table → table.nullSafeEq = node.eqNullSafe ∧
    Linked table (node.entriesFrom 0 batches) (node.entriesFrom 0 batches).length ∧
    Used table (node.entriesFrom 0 batches) (node.entriesFrom 0 batches).length
  hasNull : sink.buildHasNullKey = batches.flatten.any fun row => (node.buildKey row).any Option.isNone
  nullRows : node.buildKeys ≠ [] → sink.buildNullKeyRows =
    if node.joinType = .nullAwareLeftAnti then some (batches.map node.nullKeyRows) else none
  unspecified : node.runtimeFilters = [] → sink.runtimeFilters = none
  unfiltered : sink.runtimeFilters = none → node.runtimeFilters = [] ∨ node.buildKeys = [] ∨ batches = []
  filters : ∀ filters, sink.runtimeFilters = some filters → FiltersHold node filters batches.flatten

theorem newSink_holds (node : JoinNode α β ν) : SinkHolds node node.newSink [] := by
  exact ⟨rfl,by simp,rfl,fun _ => ⟨rfl,rfl⟩,fun _ => .inr rfl,nofun,rfl,fun _ => rfl,fun _ => rfl,
    fun _ => .inr (.inr rfl),nofun⟩

variable {node : JoinNode α β ν} {sink : HashJoinBuildSink β ν} {batches : List (List β)} {chunk : List β}

omit [DecidableEq ν] in
theorem newFilters_hold (node : JoinNode α β ν) : FiltersHold node (newFilters node.runtimeFilters) [] := by
  refine ⟨fun filter member => ?_,by simp⟩
  obtain ⟨spec,listed,rfl⟩ := mem_map.mp member
  exact node.filtersPlain spec listed

omit [DecidableEq ν] in
theorem key_of_plain {order : Nat} (plain : node.eqNullSafe[order]? = some false) :
    ∃ key, node.buildKeys[order]? = some key := by
  have inside := (List.getElem?_eq_some_iff.mp plain).1
  rw [node.flagEach] at inside
  exact ⟨_,getElem?_eq_getElem inside⟩

omit [DecidableEq ν] in
theorem FiltersHold.add {rows : List β} (chunk : List β) (filters : List LocalRuntimeFilter) :
    FiltersHold node filters rows → ∃ added, filters.mapM (node.addBuildArray chunk) = .ok added ∧
      FiltersHold node added (rows ++ chunk) := by
  induction filters with
  | nil => exact fun _ => ⟨[],rfl,nofun,nofun⟩
  | cons filter filters ih =>
    intro holds
    have rest : FiltersHold node filters rows :=
      ⟨fun other member => holds.plain other (mem_cons_of_mem _ member),
        fun other member => holds.knows other (mem_cons_of_mem _ member)⟩
    obtain ⟨added,done,grown⟩ := ih rest
    have plain := holds.plain filter mem_cons_self
    obtain ⟨key,found⟩ := key_of_plain plain
    refine ⟨{ filter with hashes := filter.hashes ++ chunk.filterMap fun row => (key row).map node.hash }
      :: added,?_,?_,?_⟩
    · rw [mapM_cons, JoinNode.addBuildArray, found, done]
      rfl
    · exact forall_mem_cons.mpr ⟨plain,grown.plain⟩
    · refine forall_mem_cons.mpr ⟨?_,grown.knows⟩
      intro key' found' row listed value valued
      obtain rfl : key = key' := Option.some.inj (found.symm.trans found')
      rcases mem_append.mp listed with old | new
      · exact mem_append_left _ (holds.knows filter mem_cons_self key found row old value valued)
      · apply mem_append_right
        exact mem_filterMap.mpr ⟨row,new,by rw [valued]; rfl⟩

variable (holds : SinkHolds node sink batches)

include holds in
theorem SinkHolds.currentFilters (specs : node.runtimeFilters ≠ []) (keyed : node.buildKeys ≠ []) :
    FiltersHold node (sink.runtimeFilters.getD (newFilters node.runtimeFilters)) batches.flatten := by
  cases given : sink.runtimeFilters with
  | some filters => exact holds.filters filters given
  | none =>
    rcases holds.unfiltered given with none | none | rfl
    · exact absurd none specs
    · exact absurd none keyed
    · exact newFilters_hold node

include holds in
theorem SinkHolds.addToFilters (keyed : node.buildKeys ≠ []) (chunk : List β) :
    ∃ filters, node.addToFilters sink.runtimeFilters chunk = .ok filters ∧
      (node.runtimeFilters = [] ↔ filters = none) ∧
      ∀ added, filters = some added → FiltersHold node added (batches.flatten ++ chunk) := by
  unfold JoinNode.addToFilters
  cases specs : node.runtimeFilters with
  | nil =>
    rw [holds.unspecified specs]
    exact ⟨none,rfl,by simp,nofun⟩
  | cons spec rest =>
    have current := holds.currentFilters (by simp [specs]) keyed
    rw [specs] at current
    obtain ⟨added,done,grown⟩ := FiltersHold.add chunk _ current
    refine ⟨some added,?_,by simp,?_⟩
    · change (mapM _ _ >>= fun added => _) = _
      rw [done]
      rfl
    · rintro _ ⟨⟩
      exact grown

theorem linked_new (node : JoinNode α β ν) (keyed : node.buildKeys ≠ []) :
    ∃ table : JoinHashTable ν, JoinHashTable.new node.eqNullSafe node.buildKeys.length = .ok table ∧
      table.nullSafeEq = node.eqNullSafe ∧ Linked table [] 0 ∧ Used table [] 0 := by
  have some' : node.buildKeys.length ≠ 0 := by simpa using keyed
  refine ⟨⟨⟨[]⟩,node.eqNullSafe,[],[],[],[],0,none,none⟩,?_,rfl,?_,by simp [Used]⟩
  · unfold JoinHashTable.new
    rw [guardThat_of some', node.flagEach]
    simp [guardThat]
    rfl
  · exact ⟨rfl,rfl,rfl,rfl,by simp,rfl,rfl,nodup_nil,rfl,by simp,by simp,by simp⟩

include holds in
theorem SinkHolds.addToTable (keyed : node.buildKeys ≠ [])
    (room : batches.flatten.length + chunk.length ≤ u32Max) :
    ∃ table, node.addToTable sink.buildTable chunk batches.length = .ok table ∧
      table.nullSafeEq = node.eqNullSafe ∧
      Linked table (node.entriesFrom 0 (batches ++ [chunk])) (node.entriesFrom 0 (batches ++ [chunk])).length ∧
      Used table (node.entriesFrom 0 (batches ++ [chunk]))
        (node.entriesFrom 0 (batches ++ [chunk])).length := by
  have before : ∃ table, node.tableOrNew sink.buildTable = .ok table ∧ table.nullSafeEq = node.eqNullSafe ∧
      Linked table (node.entriesFrom 0 batches) (node.entriesFrom 0 batches).length ∧
      Used table (node.entriesFrom 0 batches) (node.entriesFrom 0 batches).length := by
    cases given : sink.buildTable with
    | some table => exact ⟨table,rfl,holds.table table given⟩
    | none =>
      rcases holds.untabled given with none | rfl
      · exact absurd none keyed
      · exact linked_new node keyed
  obtain ⟨table,started,safe,linked,used⟩ := before
  have fits : (node.entriesFrom 0 batches).length + (chunk.map node.buildKey).length ≤ u32Max := by
    rw [length_entriesFrom, length_map]
    exact room
  obtain ⟨grown,done,linked',used',same⟩ :=
    linked.addBuildBatch used (chunk.map node.buildKey) batches.length fits
  rw [safe, node.flagEach] at done
  rw [entriesFrom_concat, Nat.zero_add]
  refine ⟨grown,?_,same.trans safe,linked',used'⟩
  unfold JoinNode.addToTable
  rw [started]
  exact done

/-- How many rows and batches can be numbered; the rows only where there are keys. -/
structure Fits (node : JoinNode α β ν) (batches : List (List β)) : Prop where
  rows : node.buildKeys ≠ [] → batches.flatten.length ≤ u32Max
  batches : batches.length ≤ u32Max + 1

omit [DecidableEq ν] in
theorem Fits.initial (fits : Fits node (batches ++ more)) : Fits node batches := by
  have rows := fits.rows
  have count := fits.batches
  rw [length_append] at count
  refine ⟨fun keyed => ?_,by omega⟩
  have whole := rows keyed
  rw [flatten_append, length_append] at whole
  omega

theorem any_concat (batches : List (List β)) (chunk : List β) (test : β → Bool) :
    (batches ++ [chunk]).flatten.any test = (batches.flatten.any test || chunk.any test) := by
  simp [any_append]

include holds in
theorem SinkHolds.pushKeys (nonempty : chunk ≠ [])
    (keyed : node.buildKeys ≠ []) (room : batches.flatten.length + chunk.length ≤ u32Max) :
    ∃ grown, node.pushKeys { sink with
        buildRowCount := sink.buildRowCount + chunk.length
        buildBatches := sink.buildBatches ++ [chunk] } chunk batches.length = .ok grown ∧
      SinkHolds node grown (batches ++ [chunk]) := by
  obtain ⟨table,tabled,safe,linked,used⟩ := holds.addToTable keyed room
  obtain ⟨filters,filtered,specified,known⟩ := holds.addToFilters keyed chunk
  unfold JoinNode.pushKeys
  rw [guardThat_of node.flagEach, tabled]
  rw [filtered]
  refine ⟨_,rfl,?_,?_,?_,fun absent => absurd absent keyed,nofun,?_,?_,?_,?_,?_,?_⟩
  · rw [holds.kept]
  · exact forall_mem_append.mpr ⟨holds.full,forall_mem_singleton.mpr nonempty⟩
  · simp [holds.count]
  · rintro _ ⟨⟩
    exact ⟨safe,linked,used⟩
  · rw [any_concat, ← holds.hasNull]
  · intro _
    rw [holds.nullRows keyed]
    split <;> simp
  · exact fun none => specified.mp none
  · exact fun none => .inl (specified.mpr none)
  · intro added given
    rw [flatten_append, flatten_singleton]
    exact known added given

include holds in
theorem SinkHolds.push (nonempty : chunk ≠ []) (fits : Fits node (batches ++ [chunk])) :
    ∃ grown, node.pushBuildChunk sink chunk = .ok grown ∧ SinkHolds node grown (batches ++ [chunk]) := by
  have some' : chunk.isEmpty = false := by simpa using nonempty
  have numbered : sink.buildBatches.length ≤ u32Max := by
    have count := fits.batches
    rw [length_append, length_singleton] at count
    rw [holds.kept]
    omega
  unfold JoinNode.pushBuildChunk
  rw [some', guardThat_of numbered]
  by_cases keyed : node.buildKeys = []
  · have width : node.buildKeys.isEmpty = true := isEmpty_iff.mpr keyed
    obtain ⟨noTable,noFilters⟩ := holds.keyless keyed
    rw [if_pos width]
    refine ⟨_,rfl,?_,?_,?_,fun _ => ⟨noTable,noFilters⟩,fun _ => .inl keyed,?_,?_,
      fun absent => absurd keyed absent,
      holds.unspecified,fun _ => .inr (.inl keyed),?_⟩
    · simp [holds.kept]
    · exact forall_mem_append.mpr ⟨holds.full,forall_mem_singleton.mpr nonempty⟩
    · simp [holds.count]
    · intro table given
      cases noTable.symm.trans given
    · rw [any_concat, ← holds.hasNull]
      simp [JoinNode.buildKey, keyed]
    · intro filters given
      cases noFilters.symm.trans given
  · have width : node.buildKeys.isEmpty = false := by simpa using keyed
    have room := fits.rows keyed
    rw [flatten_append, flatten_singleton, length_append] at room
    rw [width, holds.kept]
    have grown := holds.pushKeys nonempty keyed room
    rw [holds.kept] at grown
    exact grown

def filled (chunks : List (List β)) : List (List β) :=
  chunks.filter fun chunk => !chunk.isEmpty

theorem flatten_filled (chunks : List (List β)) : (filled chunks).flatten = chunks.flatten := by
  induction chunks with
  | nil => rfl
  | cons chunk chunks ih =>
    cases chunk with
    | nil | cons => simpa [filled] using ih

include holds in
theorem SinkHolds.fits_of_push (nonempty : chunk ≠ []) (pushed : node.pushBuildChunk sink chunk = .ok grown) :
    Fits node (batches ++ [chunk]) := by
  have some' : chunk.isEmpty = false := by simpa using nonempty
  unfold JoinNode.pushBuildChunk at pushed
  rw [some'] at pushed
  obtain ⟨_,numbered,rest⟩ := bind_ok pushed
  have count := of_decide_eq_true (guardThat_ok numbered)
  rw [holds.kept] at count
  refine ⟨fun keyed => ?_,by rw [length_append, length_singleton]; omega⟩
  have width : node.buildKeys.isEmpty = false := by simpa using keyed
  rw [width] at rest
  obtain ⟨_,-,keys⟩ := bind_ok rest
  obtain ⟨table,tabled,-⟩ := bind_ok keys
  obtain ⟨started,found,added⟩ := bind_ok tabled
  have rows : started.rowCount = batches.flatten.length := by
    cases given : sink.buildTable with
    | some table =>
      obtain ⟨-,linked,-⟩ := holds.table table given
      simp only [given] at found
      cases found
      rw [linked.count, length_entriesFrom]
    | none =>
      simp only [given] at found
      obtain ⟨fresh,made,-,linked,-⟩ := linked_new node keyed
      rcases holds.untabled given with none | rfl
      · exact absurd none keyed
      · cases made.symm.trans found
        exact linked.count
  obtain ⟨_,-,checked⟩ := bind_ok added
  obtain ⟨_,-,inserted⟩ := bind_ok checked
  have filledKeys : (chunk.map node.buildKey).isEmpty = false := by
    rw [isEmpty_map]
    exact some'
  rw [filledKeys] at inserted
  obtain ⟨_,room,-⟩ := bind_ok inserted
  have fits := of_decide_eq_true (guardThat_ok room)
  rw [rows, length_map] at fits
  rw [flatten_append, flatten_singleton, length_append]
  exact fits

/-- The sink takes all chunks if they fit, and holds them if it takes them. -/
theorem SinkHolds.pushAll (chunks : List (List β)) (sink : HashJoinBuildSink β ν)
    (batches : List (List β)) (holds : SinkHolds node sink batches) :
    (Fits node (batches ++ filled chunks) → ∃ grown, chunks.foldlM node.pushBuildChunk sink = .ok grown) ∧
      ∀ grown, chunks.foldlM node.pushBuildChunk sink = .ok grown →
        SinkHolds node grown (batches ++ filled chunks) := by
  induction chunks generalizing sink batches with
  | nil =>
    rw [filled, filter_nil, append_nil]
    refine ⟨fun _ => ⟨sink,rfl⟩,?_⟩
    rintro _ ⟨⟩
    exact holds
  | cons chunk chunks ih =>
    cases chunk with
    | nil => exact ih sink batches holds
    | cons row rows =>
      have nonempty := cons_ne_nil row rows
      have split : batches ++ filled ((row :: rows) :: chunks) =
          (batches ++ [row :: rows]) ++ filled chunks := by simp [filled]
      rw [split]
      constructor
      · intro fits
        obtain ⟨next,pushed,held⟩ := holds.push nonempty fits.initial
        rw [foldlM_cons, pushed]
        exact (ih next _ held).1 fits
      · intro grown done
        obtain ⟨next,pushed,rest⟩ := bind_ok done
        obtain ⟨again,pushed',held⟩ := holds.push nonempty (holds.fits_of_push nonempty pushed)
        cases pushed.symm.trans pushed'
        exact (ih next _ held).2 grown rest

structure ArtifactHolds (node : JoinNode α β ν) (artifact : JoinBuildArtifact β ν)
    (batches : List (List β)) : Prop where
  kept : artifact.buildBatches = batches
  full : ∀ batch ∈ batches, batch ≠ []
  count : artifact.buildRowCount = batches.flatten.length
  untabled : artifact.buildTable = none → node.buildKeys = [] ∨ batches = []
  table : ∀ table, artifact.buildTable = some table → table.nullSafeEq = node.eqNullSafe ∧
    Laid table (node.entriesFrom 0 batches)
  hasNull : artifact.buildHasNullKey =
    batches.flatten.any fun row => (node.buildKey row).any Option.isNone
  nullRows : node.buildKeys ≠ [] → artifact.buildNullKeyRows =
    if node.joinType = .nullAwareLeftAnti then some (batches.map node.nullKeyRows) else none
  filters : ∀ filters, artifact.runtimeFilters = some filters → FiltersHold node filters batches.flatten

include holds in
theorem SinkHolds.setFinishing :
    ∃ artifact, node.setFinishing sink = .ok artifact ∧ ArtifactHolds node artifact batches := by
  have tabled : ∃ table, finalizeTable sink.buildTable = .ok table ∧
      (table = none → sink.buildTable = none) ∧ ∀ laid, table = some laid →
        laid.nullSafeEq = node.eqNullSafe ∧ Laid laid (node.entriesFrom 0 batches) := by
    cases given : sink.buildTable with
    | none => exact ⟨none,rfl,fun _ => rfl,nofun⟩
    | some table =>
      obtain ⟨safe,linked,used⟩ := holds.table table given
      obtain ⟨laid,done,held,same⟩ := linked.finalizeGroups used
      refine ⟨some laid,by rw [finalizeTable, done]; rfl,nofun,?_⟩
      rintro _ ⟨⟩
      exact ⟨same.trans safe,held⟩
  have filtered : ∃ filters, node.publishFilters sink.runtimeFilters = .ok filters ∧
      ∀ added, filters = some added → FiltersHold node added batches.flatten := by
    unfold JoinNode.publishFilters
    cases specs : node.runtimeFilters with
    | nil => exact ⟨sink.runtimeFilters,rfl,holds.filters⟩
    | cons spec rest =>
      have plain := node.filtersPlain spec (by rw [specs]; exact mem_cons_self)
      have keyed : node.buildKeys ≠ [] := by
        intro none
        obtain ⟨key,found⟩ := key_of_plain plain
        rw [none] at found
        cases found
      have width : node.buildKeys.isEmpty = false := by simpa using keyed
      have current := holds.currentFilters (by simp [specs]) keyed
      rw [specs] at current
      rw [width]
      refine ⟨_,rfl,?_⟩
      rintro _ ⟨⟩
      exact current
  obtain ⟨table,finalized,absent,laid⟩ := tabled
  obtain ⟨filters,published,known⟩ := filtered
  refine ⟨⟨sink.buildBatches,table,sink.buildRowCount,sink.buildHasNullKey,sink.buildNullKeyRows,
    filters⟩,?_,holds.kept,holds.full,holds.count,fun none => holds.untabled (absent none),laid,
    holds.hasNull,holds.nullRows,known⟩
  unfold JoinNode.setFinishing
  rw [finalized]
  rw [published]
  rfl

theorem build_ok (fits : Fits node (filled chunks)) :
    ∃ artifact, node.build chunks = .ok artifact ∧ ArtifactHolds node artifact (filled chunks) := by
  obtain ⟨run,held⟩ := SinkHolds.pushAll chunks _ [] (newSink_holds node)
  obtain ⟨sink,pushed⟩ := run fits
  obtain ⟨artifact,done,holds⟩ := (held sink pushed).setFinishing
  refine ⟨artifact,?_,holds⟩
  unfold JoinNode.build
  rw [pushed]
  exact done

theorem build_holds
    (built : node.build chunks = .ok artifact) : ArtifactHolds node artifact (filled chunks) := by
  obtain ⟨sink,pushed,finished⟩ := bind_ok built
  have held := (SinkHolds.pushAll chunks _ [] (newSink_holds node)).2 sink pushed
  obtain ⟨again,done,holds⟩ := held.setFinishing
  cases finished.symm.trans done
  exact holds

end

end NovaRocks.HashJoin
