import NovaRocks.HashJoin.Marks

/-!
The outer joins of probe chunks: the joined pairs, the probe rows without a partner where
the join type keeps them, and the marks of the build rows.
-/
namespace NovaRocks.HashJoin
open NovaRocks.Store Relational List
open Candidate (indices)

theorem foldlM_ok_of {σ γ : Type} {f : σ → γ → Except String σ} {g : σ → γ → σ} (keeps : σ → Prop)
    (items : List γ) (steps : ∀ item ∈ items, ∀ state, keeps state →
      f state item = .ok (g state item) ∧ keeps (g state item)) (state : σ) (kept : keeps state) :
    items.foldlM f state = .ok (items.foldl g state) := by
  induction items generalizing state with
  | nil => rfl
  | cons item items ih =>
    obtain ⟨stepped,kept'⟩ := steps item mem_cons_self state kept
    rw [foldlM_cons, stepped]
    exact ih (fun other member => steps other (mem_cons_of_mem _ member)) _ kept'

theorem foldlM_ok {σ γ : Type} {f : σ → γ → Except String σ} {g : σ → γ → σ} (items : List γ)
    (steps : ∀ item ∈ items, ∀ state, f state item = .ok (g state item)) (state : σ) :
    items.foldlM f state = .ok (items.foldl g state) :=
  foldlM_ok_of (fun _ => True) items (fun item member state _ => ⟨steps item member state,trivial⟩) state trivial

section
variable {α β ν : Type} [DecidableEq ν] {node : JoinNode α β ν}

def JoinNode.byBatch (node : JoinNode α β ν) (batches : List (List β)) (probe : List α) :
    List (Candidate α β) :=
  (List.range batches.length).flatMap fun i => inBatch i (node.candidates batches probe)

def JoinNode.passing (node : JoinNode α β ν) (candidates : List (Candidate α β)) : List (Candidate α β) :=
  candidates.filter fun candidate => node.passes candidate.a candidate.b

theorem mem_passing_byBatch (node : JoinNode α β ν) (batches : List (List β)) (probe : List α)
    (candidate : Candidate α β) :
    candidate ∈ node.passing (node.byBatch batches probe) ↔
      candidate ∈ node.candidates batches probe ∧ node.passes candidate.a candidate.b = true := by
  rw [JoinNode.passing, mem_filter, JoinNode.byBatch, (inBatch_perm probe).mem_iff]

theorem passing_byBatch_perm (probe : List α) :
    ((node.passing (node.byBatch batches probe)).map fun candidate => joined candidate.rows).Perm
      (matched (fun a b => joined (a, b)) node.on probe batches.flatten) := by
  rw [← filter_passes_matched]
  have rows : (node.passing (node.byBatch batches probe)).map (fun candidate => joined candidate.rows) =
      (((node.byBatch batches probe).map Candidate.rows).filter
        fun pair => node.passes pair.1 pair.2).map joined := by
    rw [filter_map, map_map]
    rfl
  rw [rows]
  apply Perm.map
  apply Perm.filter
  exact ((inBatch_perm probe).map _).trans (candidates_perm probe)

theorem foldlM_batches {σ : Type} (probe : List α)
    {visit : σ → (List β × List (Nat × Nat)) × Nat → Except String σ} {step : σ → Candidate α β → σ}
    (visits : ∀ state index batch, batches[index]? = some batch →
      visit state ((batch, (inBatch index (node.candidates batches probe)).map indices), index) =
        .ok ((inBatch index (node.candidates batches probe)).foldl step state)) (state : σ) :
    (batches.zip ((range batches.length).map fun i =>
      (inBatch i (node.candidates batches probe)).map indices)).zipIdx.foldlM visit state =
      .ok ((node.byBatch batches probe).foldl step state) := by
  rw [zipIdx_zip_range, foldlM_map]
  have loops := foldlM_ok batches.zipIdx (f := fun state pair => visit state
      ((pair.1, (inBatch pair.2 (node.candidates batches probe)).map indices), pair.2))
    (fun pair member state => visits state pair.2 pair.1 (mem_zipIdx_iff_getElem?.mp member)) state
  rw [loops]
  have flat : node.byBatch batches probe =
      batches.zipIdx.flatMap fun pair => inBatch pair.2 (node.candidates batches probe) :=
    (flatMap_zipIdx _ batches).symm
  rw [flat, foldl_flatMap]

def JoinNode.outerStep (node : JoinNode α β ν) (state : OuterState α β) (candidate : Candidate α β) :
    OuterState α β :=
  node.outerPair candidate.batch state (candidate.indices, candidate.rows)

omit [DecidableEq ν] in
theorem foldl_inBatch {σ : Type} (pair : Nat → σ → (Nat × Nat) × (α × β) → σ) (index : Nat)
    (candidates : List (Candidate α β)) (state : σ) :
    (((inBatch index candidates).map indices).zip ((inBatch index candidates).map Candidate.rows)).foldl
        (pair index) state =
      (inBatch index candidates).foldl
        (fun state candidate => pair candidate.batch state (candidate.indices, candidate.rows)) state := by
  rw [zip_map', foldl_map]
  apply foldl_ext
  intro state candidate member
  have number : candidate.batch = index := of_decide_eq_true (mem_filter.mp member).2
  rw [number]

theorem outerBatch_eq (node : JoinNode α β ν) (batches : List (List β)) (probe : List α)
    (state : OuterState α β) (index : Nat) (batch : List β) (found : batches[index]? = some batch) :
    node.outerBatch probe state
        ((batch, (inBatch index (node.candidates batches probe)).map indices), index) =
      .ok ((inBatch index (node.candidates batches probe)).foldl node.outerStep state) := by
  unfold JoinNode.outerBatch
  rw [buildJoinBatch_eq found]
  exact congrArg Except.ok (foldl_inBatch node.outerPair index _ state)

omit [DecidableEq ν] in
theorem foldl_outerStep (node : JoinNode α β ν) (candidates : List (Candidate α β)) (state : OuterState α β) :
    (candidates.foldl node.outerStep state).output = state.output ++
        (node.passing candidates).map (fun candidate => joined candidate.rows) ∧
      (candidates.foldl node.outerStep state).probeMatched = (node.passing candidates).foldl
        (fun flags candidate => flags.set candidate.probeRow true) state.probeMatched ∧
      (candidates.foldl node.outerStep state).buildMatched =
        if node.joinType.tracksBuild then state.buildMatched.map fun flags =>
          (node.passing candidates).foldl (fun flags candidate =>
            setFlag flags (candidate.batch, candidate.row).1 (candidate.batch, candidate.row).2) flags
        else state.buildMatched := by
  have passed : candidates.foldl node.outerStep state = (node.passing candidates).foldl
      (fun state candidate => ⟨state.probeMatched.set candidate.probeRow true,
        if node.joinType.tracksBuild then
          state.buildMatched.map fun flags => setFlag flags candidate.batch candidate.row
        else state.buildMatched,state.output ++ [joined candidate.rows]⟩) state := by
    rw [JoinNode.passing, foldl_filter]
    rfl
  rw [passed]
  clear passed
  induction node.passing candidates generalizing state with
  | nil => split <;> simp
  | cons candidate candidates ih =>
    rw [foldl_cons, (ih _).1, (ih _).2.1, (ih _).2.2]
    split <;> simp [Function.comp_def]

theorem foldl_probeRow (probe : List α) (items : List (Candidate α β))
    (same : ∀ candidate, candidate ∈ items ↔ candidate ∈ node.candidates batches probe ∧
      node.passes candidate.a candidate.b = true) :
    items.foldl (fun flags candidate => flags.set candidate.probeRow true)
        (replicate probe.length false) =
      probe.map (hasPartner node.on batches.flatten) := by
  apply ext_getElem?
  intro p
  rw [getElem?_foldl_set, getElem?_map, getElem?_replicate]
  cases here : probe[p]? with
  | none =>
    have outside : ¬ p < probe.length := by
      rw [getElem?_eq_none_iff] at here
      omega
    simp [outside]
  | some a =>
    have inside := (List.getElem?_eq_some_iff.mp here).1
    simp [inside, candidates_matched probe items same p a here]

theorem zip_map_self (rows : List γ) (f : γ → δ) : rows.zip (rows.map f) = rows.map fun row => (row, f row) := by
  simpa using zip_map' (f := id) (g := f) (l := rows)

theorem unmatchedProbe_map (probe : List α) (test : α → Bool) :
    (unmatchedProbe probe (probe.map test) : List (JoinedRow α β)) =
      (probe.filter fun a => !test a).map (some ·, none) := by
  rw [unmatchedProbe, zip_map_self, filter_map, map_map]
  rfl

def JoinNode.outerRows (node : JoinNode α β ν) (left : List α) (right : List β) : List (JoinedRow α β) :=
  matched (fun a b => joined (a, b)) node.on left right ++
    if node.joinType.keepsProbe then (lonely node.on left right).map (some ·, none) else []

theorem lonely_append (on : α → β → Bool) (left more : List α) (right : List β) :
    lonely on (left ++ more) right = lonely on left right ++ lonely on more right :=
  filter_append ..

theorem hasPartner_apart {on : α → β → Bool} (apart : ∀ b ∈ right, on a b = false) :
    hasPartner on right a = false := by
  rw [Bool.eq_false_iff, Ne, hasPartner_iff]
  rintro ⟨b,listed,holds⟩
  rw [apart b listed] at holds
  cases holds

theorem lonely_apart {on : α → β → Bool}
    (apart : ∀ a ∈ left, ∀ b ∈ right, on a b = false) : lonely on left right = left :=
  filter_eq_self.mpr fun a member => by rw [hasPartner_apart (apart a member)]; rfl

theorem outerRows_apart (apart : ∀ a, ∀ b ∈ right, node.keysAgree a b = false) :
    node.outerRows left right = if node.joinType.keepsProbe then left.map (some ·, none) else [] := by
  have off : ∀ a ∈ left, ∀ b ∈ right, node.on a b = false :=
    fun a _ b member => on_eq_false (apart a b member)
  rw [JoinNode.outerRows, matched_eq_nil off, lonely_apart off, nil_append]

theorem marks_filter (keep : α → Bool) (received left : List α)
    (dropped : ∀ a, keep a = false → ∀ b ∈ batches.flatten, node.keysAgree a b = false) :
    node.marks batches (received ++ left.filter keep) = node.marks batches (received ++ left) := by
  apply map_congr_left
  intro batch member
  apply map_congr_left
  intro b inside
  have listed : b ∈ batches.flatten := mem_flatten.mpr ⟨batch,member,inside⟩
  rw [any_append, any_append, any_filter]
  congr 1
  apply any_congr_mem
  intro a _
  cases kept : keep a with
  | true => rfl
  | false => rw [on_eq_false (dropped a kept b listed)]; rfl

theorem marks_apart (apart : ∀ a, ∀ b ∈ batches.flatten, node.keysAgree a b = false) :
    node.marks batches (received ++ probe) = node.marks batches received := by
  rw [← marks_filter (fun _ => false) received probe fun a _ => apart a, filter_false, append_nil]

theorem outerChunk_spec (holds : CoreHolds node core batches) (keyed : node.probeKeys ≠ [])
    (probe received : List α) (flags : Option (List (List Bool))) (output : List (JoinedRow α β))
    (marked : node.joinType.tracksBuild = true → flags = some (node.marks batches received)) :
    ∃ flags' rows, node.outerChunk core (flags, output) probe = .ok (flags', output ++ rows) ∧
      rows.Perm (node.outerRows probe batches.flatten) ∧
      (node.joinType.tracksBuild = true → flags' = some (node.marks batches (received ++ probe))) := by
  -- Where nothing can be looked up, no row has a partner.
  have nothing : (∀ a, ∀ b ∈ batches.flatten, node.keysAgree a b = false) →
      ((if node.joinType.keepsProbe then probe.map (some ·, none) else []) :
        List (JoinedRow α β)).Perm (node.outerRows probe batches.flatten) ∧
      (node.joinType.tracksBuild = true → flags = some (node.marks batches (received ++ probe))) := by
    intro apart
    rw [outerRows_apart apart, marks_apart apart]
    exact ⟨Perm.refl _,marked⟩
  unfold JoinNode.outerChunk
  cases empty : probe.isEmpty with
  | true =>
    rw [isEmpty_iff.mp empty, append_nil]
    refine ⟨flags,[],by simp,?_,marked⟩
    simp [JoinNode.outerRows, matched, lonely]
  | false =>
    cases given : core.buildTable with
    | none =>
      obtain ⟨rows,kept⟩ := nothing (holds.apart keyed (.inl given))
      exact ⟨flags,_,rfl,rows,kept⟩
    | some table =>
      obtain ⟨safe,laid⟩ := holds.table table given
      cases groups : table.isEmpty with
      | true =>
        obtain ⟨rows,kept⟩ := nothing (holds.apart keyed (.inr (.inr ⟨table,given,groups⟩)))
        exact ⟨flags,_,by simp [groups],rows,kept⟩
      | false =>
        cases stored : core.buildBatches.isEmpty with
        | true =>
          have none := isEmpty_iff.mp stored
          obtain ⟨rows,kept⟩ := nothing (holds.apart keyed (.inr (.inl none)))
          exact ⟨flags,_,by simp [groups],rows,kept⟩
        | false =>
          have loop := foldlM_batches probe (outerBatch_eq node batches probe)
            ⟨replicate probe.length false,flags,[]⟩
          obtain ⟨output',probeFlags,buildFlags⟩ := foldl_outerStep node
            (node.byBatch batches probe) ⟨replicate probe.length false,flags,[]⟩
          have same := mem_passing_byBatch node batches probe
          generalize outcome : (node.byBatch batches probe).foldl node.outerStep
            ⟨replicate probe.length false,flags,[]⟩ = final at *
          refine ⟨final.buildMatched,final.output ++
            if node.joinType.keepsProbe then unmatchedProbe probe final.probeMatched else [],?_,?_,?_⟩
          · simp only [groups]
            rw [holds.kept, pairsByBatch_eq laid safe keyed]
            change (foldlM (node.outerBatch probe) _ _ >>= fun outcome => _) = _
            rw [loop, ← append_assoc]
            rfl
          · rw [output', nil_append]
            apply Perm.append (passing_byBatch_perm probe)
            rw [probeFlags, foldl_probeRow probe _ same, unmatchedProbe_map]
            exact Perm.refl _
          · intro tracks
            rw [buildFlags, if_pos tracks, marked tracks, Option.map_some,
              marks_append (candidates_cover probe _ same)]

theorem outerRows_append_perm (left more : List α) (right : List β) :
    (node.outerRows left right ++ node.outerRows more right).Perm (node.outerRows (left ++ more) right) := by
  unfold JoinNode.outerRows
  rw [matched_append, lonely_append, append_assoc, append_assoc]
  apply Perm.append_left
  split
  · rw [map_append, ← append_assoc, ← append_assoc]
    exact perm_append_comm.append_right _
  · rw [nil_append]

theorem outerChunks_spec (holds : CoreHolds node core batches) (keyed : node.probeKeys ≠ [])
    (chunks : List (List α)) (received : List α) (flags : Option (List (List Bool)))
    (output : List (JoinedRow α β))
    (marked : node.joinType.tracksBuild = true → flags = some (node.marks batches received)) :
    ∃ flags' rows, chunks.foldlM (node.outerChunk core) (flags, output) = .ok (flags', output ++ rows) ∧
      rows.Perm (node.outerRows chunks.flatten batches.flatten) ∧
      (node.joinType.tracksBuild = true →
        flags' = some (node.marks batches (received ++ chunks.flatten))) := by
  induction chunks generalizing received flags output with
  | nil =>
    refine ⟨flags,[],by simp; rfl,?_,by simpa using marked⟩
    simp [JoinNode.outerRows, matched, lonely]
  | cons chunk chunks ih =>
    obtain ⟨flags',rows,one,first,marked'⟩ :=
      outerChunk_spec holds keyed chunk received flags output marked
    obtain ⟨flags'',more,rest,second,marked''⟩ := ih (received ++ chunk) flags' (output ++ rows) marked'
    refine ⟨flags'',rows ++ more,?_,?_,?_⟩
    · rw [foldlM_cons, one, ← append_assoc]
      exact rest
    · rw [flatten_cons]
      exact (first.append second).trans (outerRows_append_perm _ _ _)
    · rw [flatten_cons, ← append_assoc]
      exact marked''

theorem joinOuter_spec (holds : CoreHolds node core batches) (keyed : node.probeKeys ≠ [])
    (chunks : List (List α)) (received : List α)
    (marked : node.joinType.tracksBuild = true → core.buildMatched = some (node.marks batches received)) :
    ∃ flags out, node.joinOuter core chunks = .ok ({ core with buildMatched := flags }, out) ∧
      (out.getD []).Perm (node.outerRows chunks.flatten batches.flatten) ∧
      (node.joinType.tracksBuild = true →
        flags = some (node.marks batches (received ++ chunks.flatten))) := by
  have width : node.probeKeys.isEmpty = false := by simpa using keyed
  obtain ⟨flags,rows,done,made,marked'⟩ :=
    outerChunks_spec holds keyed chunks received core.buildMatched [] marked
  refine ⟨flags,emit rows,?_,by rw [getD_emit]; exact made,marked'⟩
  unfold JoinNode.joinOuter
  rw [width, done]
  rfl

end

end NovaRocks.HashJoin
