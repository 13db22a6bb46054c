import NovaRocks.HashJoin.Candidates

/-!
A core that has loaded an artifact, and the runtime filters it applies: a probe row they
drop agrees with no build row.
-/
namespace NovaRocks.HashJoin
open NovaRocks.Store List

section
variable {α β ν : Type} [DecidableEq ν]

structure CoreHolds (node : JoinNode α β ν) (core : HashJoinProbeCore β ν) (batches : List (List β)) :
    Prop where
  loaded : core.buildLoaded = true
  kept : core.buildBatches = batches
  full : ∀ batch ∈ batches, batch ≠ []
  untabled : core.buildTable = none → node.buildKeys = [] ∨ batches = []
  table : ∀ table, core.buildTable = some table → table.nullSafeEq = node.eqNullSafe ∧
    Laid table (node.entriesFrom 0 batches)
  nullRows : node.buildKeys ≠ [] → core.buildNullKeyRows =
    if node.joinType = .nullAwareLeftAnti then some (batches.map node.nullKeyRows) else none
  filters : ∀ filters, core.runtimeFilters = some filters → FiltersHold node filters batches.flatten

theorem setBuildArtifact_holds {node : JoinNode α β ν} (holds : ArtifactHolds node artifact batches)
    (fresh : core.buildLoaded = false) (rows : Nat) (hasNull : Bool) :
    CoreHolds node (node.setBuildArtifact core artifact rows hasNull) batches := by
  unfold JoinNode.setBuildArtifact
  rw [fresh]
  exact ⟨rfl,holds.kept,holds.full,holds.untabled,holds.table,holds.nullRows,holds.filters⟩

omit [DecidableEq ν] in
theorem value_of_allowed {values : List (Option ν)} {order : Nat} (allowed : rowHasForbiddenNull flags values = false)
    (plain : flags[order]? = some false) : values[order]? ≠ some none := by
  induction flags generalizing values order with
  | nil => cases plain
  | cons safe flags ih =>
    intro found
    cases values with
    | nil => cases found
    | cons value values =>
      simp only [rowHasForbiddenNull, Bool.or_eq_false_iff, Bool.and_eq_false_iff] at allowed
      cases order with
      | zero =>
        cases plain
        cases found
        rcases allowed.1 with safe | present
        · cases safe
        · cases present
      | succ order => exact ih allowed.2 plain found

variable {node : JoinNode α β ν} {rows : List β}

def JoinNode.passesFilter (node : JoinNode α β ν) (a : α) (filter : LocalRuntimeFilter) : Bool :=
  (node.probeKeys[filter.exprOrder]?).any fun key =>
    (key a).any fun value => filter.hashes.contains (node.hash value)

omit [DecidableEq ν] in
theorem FiltersHold.inside (holds : FiltersHold node filters rows) (member : f ∈ filters) :
    f.exprOrder < node.probeKeys.length := by
  obtain ⟨key,found⟩ := key_of_plain (holds.plain f member)
  rw [node.sameKeys]
  exact (List.getElem?_eq_some_iff.mp found).1

theorem FiltersHold.passes (holds : FiltersHold node filters rows) (listed : b ∈ rows)
    (agrees : node.keysAgree a b = true) : filters.all (node.passesFilter a) = true := by
  obtain ⟨allowed,same⟩ := (keysAgree_iff node a b).mp agrees
  rw [all_eq_true]
  intro filter member
  have plain := holds.plain filter member
  obtain ⟨buildKey,found⟩ := key_of_plain plain
  have inside := holds.inside member
  have column : (node.probeKey a)[filter.exprOrder]? = some (node.probeKeys[filter.exprOrder] a) := by
    rw [JoinNode.probeKey, getElem?_map, getElem?_eq_getElem inside]
    rfl
  have other : (node.buildKey b)[filter.exprOrder]? = some (buildKey b) := by
    rw [JoinNode.buildKey, getElem?_map, found]
    rfl
  have equal : node.probeKeys[filter.exprOrder] a = buildKey b := by
    rw [same, column] at other
    exact Option.some.inj other
  cases value : buildKey b with
  | none =>
    rw [equal, value] at column
    exact absurd column (value_of_allowed allowed plain)
  | some value' =>
    have known := holds.knows filter member buildKey found b listed value' value
    simp [JoinNode.passesFilter, getElem?_eq_getElem inside, equal, value, known]

omit [DecidableEq ν] in
theorem mapM_filterKey (holds : FiltersHold node filters rows) :
    ∃ keys, filters.mapM node.filterKey = .ok keys ∧ ∀ a : α,
      ((keys.zip filters).all fun (key, filter) =>
        (key a).any fun value => filter.hashes.contains (node.hash value)) =
      filters.all (node.passesFilter a) := by
  induction filters with
  | nil => exact ⟨[],rfl,fun _ => rfl⟩
  | cons filter filters ih =>
    have rest : FiltersHold node filters rows :=
      ⟨fun other member => holds.plain other (mem_cons_of_mem _ member),
        fun other member => holds.knows other (mem_cons_of_mem _ member)⟩
    obtain ⟨keys,done,same⟩ := ih rest
    have inside := holds.inside mem_cons_self
    refine ⟨node.probeKeys[filter.exprOrder] :: keys,?_,?_⟩
    · rw [mapM_cons, done]
      simp [JoinNode.filterKey, getElem?_eq_getElem inside]
      rfl
    · intro a
      rw [zip_cons_cons, all_cons, all_cons, same, JoinNode.passesFilter, getElem?_eq_getElem inside]
      rfl

omit [DecidableEq ν] in
theorem filterProbeChunk_eq (holds : FiltersHold node filters rows) (chunk : List α) :
    ∃ kept, node.filterProbeChunk filters chunk = .ok kept ∧
      kept.getD [] = chunk.filter fun a => filters.all (node.passesFilter a) := by
  unfold JoinNode.filterProbeChunk
  cases filters with
  | nil => exact ⟨some chunk,rfl,by simp⟩
  | cons filter filters =>
    cases chunk with
    | nil => exact ⟨some [],rfl,rfl⟩
    | cons a chunk =>
      have width : node.probeKeys.isEmpty = false := by
        have inside := holds.inside mem_cons_self
        simpa using ne_nil_of_length_pos (Nat.zero_lt_of_lt inside)
      obtain ⟨keys,done,same⟩ := mapM_filterKey holds
      simp only [width, done]
      change ∃ kept, (if ((a :: chunk).filter _).isEmpty = true then _ else _) = _ ∧ _
      have mask : ((a :: chunk).filter fun row => (keys.zip (filter :: filters)).all fun (key, filter) =>
          (key row).any fun value => filter.hashes.contains (node.hash value)) =
          (a :: chunk).filter fun a => (filter :: filters).all (node.passesFilter a) :=
        filter_congr fun row _ => same row
      rw [mask]
      split
      case isTrue empty => exact ⟨none,rfl,(isEmpty_iff.mp empty).symm⟩
      case isFalse => exact ⟨_,rfl,rfl⟩

theorem applyRuntimeFilters_eq (holds : CoreHolds node core batches) (chunks : List (List α)) :
    ∃ filtered keep, node.applyRuntimeFilters core chunks = .ok filtered ∧
      filtered.flatten = chunks.flatten.filter keep ∧
      (node.joinType.appliesFilters = false → filtered = chunks) ∧
      ∀ a, keep a = false → ∀ b ∈ batches.flatten, node.keysAgree a b = false := by
  unfold JoinNode.applyRuntimeFilters
  cases applies : node.joinType.appliesFilters with
  | false => exact ⟨chunks,fun _ => true,rfl,(filter_true _).symm,fun _ => rfl,nofun⟩
  | true =>
    cases given : core.runtimeFilters with
    | none => exact ⟨chunks,fun _ => true,rfl,(filter_true _).symm,fun _ => rfl,nofun⟩
    | some filters =>
      have known := holds.filters filters given
      have filtered : ∃ kept, chunks.mapM (node.filterProbeChunk filters) = .ok kept ∧
          (kept.filterMap fun chunk => chunk.bind fun rows =>
            if rows.isEmpty then none else some rows).flatten =
          chunks.flatten.filter fun a => filters.all (node.passesFilter a) := by
        induction chunks with
        | nil => exact ⟨[],rfl,rfl⟩
        | cons chunk chunks ih =>
          obtain ⟨rest,done,rows⟩ := ih
          obtain ⟨kept,one,left⟩ := filterProbeChunk_eq known chunk
          refine ⟨kept :: rest,by rw [mapM_cons, one, done]; rfl,?_⟩
          rw [flatten_cons, filter_append, ← left, ← rows]
          cases kept with
          | none => rfl
          | some kept => cases kept <;> rfl
      obtain ⟨kept,done,rows⟩ := filtered
      refine ⟨_,_,?_,rows,nofun,?_⟩
      · change (mapM _ _ >>= fun filtered => _) = _
        rw [done]
        rfl
      intro a dropped b listed
      rw [Bool.eq_false_iff]
      intro agrees
      rw [known.passes listed agrees] at dropped
      cases dropped

end

end NovaRocks.HashJoin
