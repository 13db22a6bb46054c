import NovaRocks.HashJoin.ProbeOuter

/-!
The semi and anti joins of probe chunks. For the left ones the rows with or without a
partner come out; for the right ones only the build rows are marked. Looking at the pairs
slice by slice, and only at those of probe rows without a match so far, finds the same
rows as looking at all pairs.
-/
namespace NovaRocks.HashJoin
open NovaRocks.Store Relational List
open Candidate (indices)

theorem slices_map (f : γ → δ) (size fuel : Nat) (items : List γ) :
    slices size fuel (items.map f) = (slices size fuel items).map (map f) := by
  induction fuel generalizing items with
  | zero => rfl
  | succ fuel ih =>
    cases items with
    | nil => rfl
    | cons item items =>
      simp only [slices, isEmpty_cons, Bool.false_eq_true, if_false, map_cons]
      rw [← map_cons, ← map_take, ← map_drop, ih]

theorem flatten_slices (positive : 0 < size) (fuel : Nat) (items : List γ)
    (short : items.length ≤ fuel) : (slices size fuel items).flatten = items := by
  induction fuel generalizing items with
  | zero =>
    have none : items = [] := length_eq_zero_iff.mp (by omega)
    rw [none]
    rfl
  | succ fuel ih =>
    cases items with
    | nil => rfl
    | cons item items =>
      simp only [slices, isEmpty_cons, Bool.false_eq_true, if_false, flatten_cons]
      rw [ih, take_append_drop]
      simp only [length_drop] at short ⊢
      omega

section
variable {α β ν : Type} {node : JoinNode α β ν}

section
variable (candidates : List (Candidate α β))

def setRows (flags : List Bool) : List Bool :=
  candidates.foldl (fun flags candidate => flags.set candidate.probeRow true) flags

theorem length_setRows (flags : List Bool) : (setRows candidates flags).length = flags.length := by
  induction candidates generalizing flags with
  | nil => rfl
  | cons candidate candidates ih => exact (ih _).trans length_set

theorem setRows_live (flags : List Bool) :
    setRows (candidates.filter fun candidate => !(flags.getD candidate.probeRow false)) flags =
      setRows candidates flags := by
  apply ext_getElem?
  intro p
  unfold setRows
  rw [getElem?_foldl_set, getElem?_foldl_set]
  cases found : flags[p]? with
  | none => rfl
  | some flag =>
    cases flag with
    | true => simp
    | false =>
      simp only [Option.map_some, Bool.false_or, Option.some.injEq]
      rw [Bool.eq_iff_iff, any_eq_true, any_eq_true]
      constructor
      · rintro ⟨candidate,member,row⟩
        exact ⟨candidate,(mem_filter.mp member).1,row⟩
      · rintro ⟨candidate,member,row⟩
        refine ⟨candidate,mem_filter.mpr ⟨member,?_⟩,row⟩
        rw [of_decide_eq_true row, getD_eq_getElem?_getD, found]
        rfl

theorem foldl_passing (flags : List Bool) :
    (candidates.map fun candidate => (candidate.indices, candidate.rows)).foldl
        (fun matched candidate => if node.passes candidate.2.1 candidate.2.2
          then matched.set candidate.1.1 true else matched) flags =
      setRows (node.passing candidates) flags := by
  rw [foldl_map, setRows, JoinNode.passing, foldl_filter]
  rfl

end

theorem residualSlice_eq (placed : Placed probe batch candidates) (size : flags.length = probe.length) :
    node.residualSlice probe batch flags (candidates.map indices) =
      .ok (setRows (node.passing candidates) flags) := by
  have inside : guardThat ((candidates.map indices).all fun pair =>
      decide (pair.1 < flags.length)) "join probe index out of bounds" = .ok () := by
    have all : ((candidates.map indices).all fun pair => decide (pair.1 < flags.length)) = true := by
      rw [all_map, all_eq_true]
      intro candidate member
      have here := (List.getElem?_eq_some_iff.mp (placed candidate member).1).1
      rw [← size] at here
      exact decide_eq_true here
    rw [all]
    rfl
  generalize chosen : candidates.filter (fun candidate => !(flags.getD candidate.probeRow false)) = live
  have livePlaced : Placed probe batch live := by
    intro candidate member
    rw [← chosen] at member
    exact placed candidate (mem_filter.mp member).1
  have liveIndices : (candidates.map indices).filter (fun pair => !(flags.getD pair.1 false)) =
      live.map indices := by
    rw [← chosen, filter_map]
    rfl
  unfold JoinNode.residualSlice
  rw [inside]
  change (buildJoinBatch probe batch (filter _ _) >>= fun rows => _) = _
  rw [liveIndices, livePlaced.buildJoinBatch]
  change Except.ok (foldl _ _ ((live.map _).zip _)) = _
  rw [zip_map', foldl_passing, ← chosen]
  have swap : node.passing (candidates.filter fun candidate => !(flags.getD candidate.probeRow false)) =
      (node.passing candidates).filter fun candidate => !(flags.getD candidate.probeRow false) := by
    unfold JoinNode.passing
    rw [filter_filter, filter_filter]
    apply filter_congr
    intro candidate _
    exact Bool.and_comm _ _
  rw [swap, setRows_live]

theorem residualSlices_eq {parts : List (List (Candidate α β))} (placed : Placed probe batch parts.flatten)
    (size : flags.length = probe.length) :
    (parts.map (map indices)).foldlM (node.residualSlice probe batch) flags =
      .ok (setRows (node.passing parts.flatten) flags) := by
  rw [foldlM_map, foldlM_ok_of (fun flags : List Bool => flags.length = probe.length) parts
    (fun part member flags size => ⟨residualSlice_eq (fun candidate inside =>
      placed candidate (mem_flatten_of_mem member inside)) size,(length_setRows _ _).trans size⟩) flags size]
  simp only [setRows, JoinNode.passing, filter_flatten, foldl_flatten, foldl_map]

theorem residualBatch_eq (placed : Placed probe batch candidates) (size : flags.length = probe.length) :
    node.residualBatch probe flags (batch, candidates.map indices) =
      .ok (setRows (node.passing candidates) flags) := by
  have whole : (slices maxEvalPairs candidates.length candidates).flatten = candidates :=
    flatten_slices (by decide) _ _ (Nat.le_refl _)
  unfold JoinNode.residualBatch
  rw [length_map, slices_map, residualSlices_eq (by rw [whole]; exact placed) size, whole]

variable [DecidableEq ν] {batches : List (List β)} {table : JoinHashTable ν}
  (laid : Laid table (node.entriesFrom 0 batches)) (safe : table.nullSafeEq = node.eqNullSafe)

variable (keyed : node.probeKeys ≠ [])

include laid safe keyed in
theorem probeChunkMatchesResidual_eq (probe : List α) :
    node.probeChunkMatchesResidual batches table probe =
      .ok (probe.map (hasPartner node.on batches.flatten)) := by
  unfold JoinNode.probeChunkMatchesResidual
  rw [pairsByBatch_eq laid safe keyed]
  change foldlM _ _ (batches.zip _) = _
  rw [zip_range, foldlM_map]
  have loop := foldlM_ok_of (fun flags : List Bool => flags.length = probe.length) batches.zipIdx
    (f := fun flags pair => node.residualBatch probe flags
      (pair.1, (inBatch pair.2 (node.candidates batches probe)).map indices))
    (fun pair member flags size =>
      ⟨residualBatch_eq (inBatch_placed (mem_zipIdx_iff_getElem?.mp member)) size,
        (length_setRows _ _).trans size⟩) (replicate probe.length false) length_replicate
  rw [loop]
  have flat : node.passing (node.byBatch batches probe) =
      batches.zipIdx.flatMap fun pair => node.passing (inBatch pair.2 (node.candidates batches probe)) := by
    rw [JoinNode.byBatch, JoinNode.passing, filter_flatMap]
    exact (flatMap_zipIdx _ batches).symm
  have rows := foldl_probeRow probe _ (mem_passing_byBatch node batches probe)
  rw [flat, foldl_flatMap] at rows
  exact congrArg Except.ok rows

include laid safe in
theorem lookup_isSome (a : α) :
    (table.lookupGroupId (node.probeKey a)).isSome = hasPartner node.keysAgree batches.flatten a := by
  rw [Bool.eq_iff_iff, hasPartner_iff, ← agreeing_ne_nil]
  rcases group_cases laid safe a with ⟨looked,none⟩ | ⟨group,rows,looked,-,-,some'⟩
  · simp [looked, none]
  · simp [looked, some']

theorem on_of_plain (plain : node.residualPredicate = none) : node.on = node.keysAgree := by
  funext a b
  simp [JoinNode.on, JoinNode.passes, plain]

include laid safe keyed in
theorem probeMatches_eq (probe : List α) :
    node.probeMatches batches table probe = .ok (probe.map (hasPartner node.on batches.flatten)) := by
  unfold JoinNode.probeMatches
  cases residual : node.residualPredicate with
  | some predicate => exact probeChunkMatchesResidual_eq laid safe keyed probe
  | none =>
    rw [on_of_plain residual, lookupGroupIds_eq keyed]
    change Except.ok (map Option.isSome (map _ _)) = _
    rw [map_map]
    congr 1
    apply map_congr_left
    intro a _
    exact lookup_isSome laid safe a

theorem keepWhere_map (rows : List γ) (test : γ → Bool) : keepWhere rows (rows.map test) = rows.filter test := by
  rw [keepWhere, zip_map_self, filter_map, map_map]
  exact map_id _

def JoinNode.semiRows (node : JoinNode α β ν) (wantMatched : Bool) (left : List α) (right : List β) :
    List (JoinedRow α β) :=
  (if wantMatched then paired node.on left right else lonely node.on left right).map (some ·, none)

include laid safe keyed in
theorem semiAntiChunk_eq (wantMatched : Bool)
    (probe : List α) : node.semiAntiChunk batches table wantMatched probe =
      .ok (node.semiRows wantMatched probe batches.flatten) := by
  unfold JoinNode.semiAntiChunk
  rw [probeMatches_eq laid safe keyed]
  change Except.ok _ = _
  congr 1
  rw [map_map, JoinNode.semiRows]
  congr 1
  cases wantMatched with
  | true | false => exact keepWhere_map probe _

theorem paired_apart {on : α → β → Bool}
    (apart : ∀ a ∈ left, ∀ b ∈ right, on a b = false) : paired on left right = [] :=
  filter_eq_nil_iff.mpr fun a member => by simp [hasPartner_apart (apart a member)]

theorem semiRows_apart (apart : ∀ a, ∀ b ∈ right, node.keysAgree a b = false) (wantMatched : Bool) :
    node.semiRows wantMatched left right = if wantMatched then [] else left.map (some ·, none) := by
  have off : ∀ a ∈ left, ∀ b ∈ right, node.on a b = false :=
    fun a _ b member => on_eq_false (apart a b member)
  cases wantMatched with
  | true => rw [JoinNode.semiRows, if_pos rfl, paired_apart off]; rfl
  | false => rw [JoinNode.semiRows, lonely_apart off]; rfl

theorem semiRows_flatten (wantMatched : Bool) (chunks : List (List α)) (right : List β) :
    (chunks.map fun chunk => node.semiRows wantMatched chunk right).flatten =
      node.semiRows wantMatched chunks.flatten right := by
  induction chunks with
  | nil => cases wantMatched <;> rfl
  | cons chunk chunks ih =>
    rw [map_cons, flatten_cons, ih, flatten_cons]
    cases wantMatched <;> simp [JoinNode.semiRows, paired, lonely]

theorem leftSemiAnti_eq (holds : CoreHolds node core batches) (keyed : node.probeKeys ≠ [])
    (wantMatched : Bool) (chunks : List (List α)) :
    ∃ out, node.leftSemiAnti core wantMatched chunks = .ok out ∧
      out.getD [] = node.semiRows wantMatched chunks.flatten batches.flatten := by
  have nothing : (∀ a, ∀ b ∈ batches.flatten, node.keysAgree a b = false) →
      ((if wantMatched then none else some (chunks.flatten.map (some ·, none))) :
        Option (List (JoinedRow α β))).getD [] = node.semiRows wantMatched chunks.flatten batches.flatten := by
    intro apart
    rw [semiRows_apart apart]
    cases wantMatched <;> rfl
  unfold JoinNode.leftSemiAnti
  cases given : core.buildTable with
  | none => exact ⟨_,rfl,nothing (holds.apart keyed (.inl given))⟩
  | some table =>
    obtain ⟨safe,laid⟩ := holds.table table given
    cases groups : table.isEmpty with
    | true =>
      exact ⟨_,by simp [groups],nothing (holds.apart keyed (.inr (.inr ⟨table,given,groups⟩)))⟩
    | false =>
      cases stored : core.buildBatches.isEmpty with
      | true =>
        exact ⟨_,by simp [groups],nothing (holds.apart keyed (.inr (.inl (isEmpty_iff.mp stored))))⟩
      | false =>
        have done : chunks.mapM (node.semiAntiChunk batches table wantMatched) = .ok (chunks.map _) :=
          mapM_ok fun probe _ => semiAntiChunk_eq laid safe keyed wantMatched probe
        refine ⟨_,by simp only [groups, holds.kept, done]; rfl,?_⟩
        rw [getD_emit, semiRows_flatten]

/-! ### Marking build rows -/

def setPlaces (candidates : List (Candidate α β)) (flags : List (List Bool)) : List (List Bool) :=
  candidates.foldl (fun flags candidate =>
    setFlag flags (candidate.batch, candidate.row).1 (candidate.batch, candidate.row).2) flags

def JoinNode.markStep (node : JoinNode α β ν) (flags : List (List Bool)) (candidate : Candidate α β) :
    List (List Bool) :=
  node.markPair candidate.batch flags (candidate.indices, candidate.rows)

open JoinNode (byBatch candidatesFrom joinSemiAnti markPair markStep passing semiRows)

omit [DecidableEq ν] in
theorem foldl_markStep (candidates : List (Candidate α β)) (flags : List (List Bool)) :
    candidates.foldl node.markStep flags = setPlaces (node.passing candidates) flags := by
  rw [setPlaces, passing, foldl_filter]
  rfl

theorem markBatch_eq (node : JoinNode α β ν) (batches : List (List β)) (probe : List α)
    (flags : List (List Bool)) (index : Nat) (batch : List β) (found : batches[index]? = some batch) :
    node.markBatch probe flags
        ((batch, (inBatch index (node.candidates batches probe)).map indices), index) =
      .ok ((inBatch index (node.candidates batches probe)).foldl node.markStep flags) := by
  unfold JoinNode.markBatch
  rw [buildJoinBatch_eq found]
  exact congrArg Except.ok (foldl_inBatch node.markPair index _ flags)

theorem setPlaces_marks (probe received : List α) (items : List (Candidate α β))
    (same : ∀ candidate, candidate ∈ items ↔ candidate ∈ node.candidates batches probe ∧
      node.passes candidate.a candidate.b = true) :
    setPlaces items (node.marks batches received) = node.marks batches (received ++ probe) :=
  marks_append (candidates_cover probe items same)

include laid safe in
theorem markGroup_eq (a : α) (first : Nat) (flags : List (List Bool)) :
    table.markGroup flags (table.lookupGroupId (node.probeKey a)) =
      .ok (setPlaces (node.candidatesFrom batches first [a]) flags) := by
  have places : setPlaces (node.candidatesFrom batches first [a]) flags =
      ((node.agreeing batches a).map Prod.fst).foldl
        (fun flags location => setFlag flags location.1 location.2) flags := by
    rw [setPlaces, candidatesFrom, candidatesFrom, append_nil, foldl_map, foldl_map]
  rw [places]
  rcases group_cases laid safe a with ⟨looked,none⟩ | ⟨group,rows,looked,slice,locations,-⟩
  · rw [looked, none]
    rfl
  · rw [looked]
    change (table.groupRowsSlice group >>= fun rows => _) = _
    rw [slice]
    change (mapM table.rowLocation _ >>= fun locations => _) = _
    rw [locations]
    rfl

include laid safe in
theorem markGroups_eq (probe : List α) (first : Nat) (flags : List (List Bool)) :
    (probe.map fun a => table.lookupGroupId (node.probeKey a)).foldlM table.markGroup flags =
      .ok (setPlaces (node.candidatesFrom batches first probe) flags) := by
  induction probe generalizing first flags with
  | nil => exact rfl
  | cons a probe ih =>
    rw [map_cons, foldlM_cons, markGroup_eq laid safe a first]
    change foldlM table.markGroup (setPlaces _ _) _ = _
    rw [ih (first + 1)]
    rw [candidatesFrom, candidatesFrom, candidatesFrom, append_nil]
    unfold setPlaces
    rw [foldl_append]

include laid safe keyed in
theorem markChunk_eq (received probe : List α) :
    node.markChunk batches table (node.marks batches received) probe =
      .ok (node.marks batches (received ++ probe)) := by
  unfold JoinNode.markChunk
  cases empty : probe.isEmpty with
  | true =>
    rw [isEmpty_iff.mp empty, append_nil]
    rfl
  | false =>
    cases residual : node.residualPredicate with
    | none =>
      rw [Option.isNone_none, if_pos rfl, lookupGroupIds_eq keyed]
      change foldlM table.markGroup _ _ = _
      rw [markGroups_eq laid safe probe 0]
      congr 1
      apply setPlaces_marks
      intro candidate
      refine ⟨fun member => ⟨member,?_⟩,And.left⟩
      simp [JoinNode.passes, residual]
    | some predicate =>
      rw [pairsByBatch_eq laid safe keyed]
      change foldlM (node.markBatch probe) _ _ = _
      rw [foldlM_batches probe (markBatch_eq node batches probe), foldl_markStep]
      congr 1
      exact setPlaces_marks probe received _ (mem_passing_byBatch node batches probe)

include laid safe keyed in
theorem markChunks_eq (chunks : List (List α)) (received : List α) :
    chunks.foldlM (node.markChunk batches table) (node.marks batches received) =
      .ok (node.marks batches (received ++ chunks.flatten)) := by
  induction chunks generalizing received with
  | nil => simp; rfl
  | cons chunk chunks ih =>
    rw [foldlM_cons, markChunk_eq laid safe keyed]
    change foldlM _ _ _ = _
    rw [ih, flatten_cons, append_assoc]

theorem markBuildMatches_eq (holds : CoreHolds node core batches) (keyed : node.probeKeys ≠ [])
    (chunks : List (List α)) (received : List α)
    (marked : core.buildMatched = some (node.marks batches received)) :
    node.markBuildMatchesForSemiAnti core chunks =
      .ok { core with buildMatched := some (node.marks batches (received ++ chunks.flatten)) } := by
  have nothing : (∀ a, ∀ b ∈ batches.flatten, node.keysAgree a b = false) →
      core = { core with buildMatched := some (node.marks batches (received ++ chunks.flatten)) } := by
    intro apart
    rw [marks_apart apart, ← marked]
  unfold JoinNode.markBuildMatchesForSemiAnti
  cases none : chunks.isEmpty with
  | true =>
    rw [isEmpty_iff.mp none, flatten_nil, append_nil, ← marked]
    rfl
  | false =>
    cases stored : core.buildBatches.isEmpty with
    | true =>
      have apart := holds.apart keyed (.inr (.inl (isEmpty_iff.mp stored)))
      rw [← nothing apart]
      rfl
    | false =>
      simp only [Bool.or_self, Bool.false_eq_true, if_false]
      rcases Option.eq_none_or_eq_some core.buildTable with given | ⟨table,given⟩
      · rw [← nothing (holds.apart keyed (.inl given)), given]
      · obtain ⟨safe,laid⟩ := holds.table table given
        cases groups : table.isEmpty with
        | true =>
          rw [← nothing (holds.apart keyed (.inr (.inr ⟨table,given,groups⟩))), given, marked]
          simp [groups]
        | false =>
          simp only [given, marked, groups]
          rw [holds.kept, markChunks_eq laid safe keyed]
          rfl

theorem joinSemiAnti_spec (holds : CoreHolds node core batches) (keyed : node.probeKeys ≠ [])
    (chunks : List (List α)) (received : List α)
    (marked : node.joinType.tracksBuild = true → core.buildMatched = some (node.marks batches received))
    (semi : node.joinType = .leftSemi ∨ node.joinType = .leftAnti ∨ node.joinType = .rightSemi ∨
      node.joinType = .rightAnti) :
    ∃ flags out, node.joinSemiAnti core chunks = .ok ({ core with buildMatched := flags }, out) ∧
      out.getD [] = (if node.joinType.tracksBuild then []
        else node.semiRows (node.joinType = .leftSemi) chunks.flatten batches.flatten) ∧
      (node.joinType.tracksBuild = true →
        flags = some (node.marks batches (received ++ chunks.flatten))) := by
  have width : node.probeKeys.isEmpty = false := by simpa using keyed
  -- Among these join types the right ones are those that mark build rows.
  have sides : node.joinType.tracksBuild =
      decide (node.joinType = .rightSemi ∨ node.joinType = .rightAnti) := by
    rcases semi with kind | kind | kind | kind <;> rw [kind] <;> rfl
  unfold joinSemiAnti
  rw [width, if_neg (by decide)]
  by_cases right : node.joinType = .rightSemi ∨ node.joinType = .rightAnti
  · rw [decide_eq_true right] at sides
    rw [if_pos right, markBuildMatches_eq holds keyed chunks received (marked sides), if_pos sides]
    exact ⟨_,none,rfl,rfl,fun _ => rfl⟩
  · obtain ⟨out,done,rows⟩ := leftSemiAnti_eq holds keyed (node.joinType = .leftSemi) chunks
    rw [decide_eq_false right] at sides
    rw [if_neg right, done, sides]
    exact ⟨core.buildMatched,out,rfl,rows,fun tracks => by cases tracks⟩

end

end NovaRocks.HashJoin
