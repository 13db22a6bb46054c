import NovaRocks.HashJoin.ProbeFilters

/-!
The inner join of probe chunks with the build rows, with and without keys, and what the
other join types share with it.
-/
namespace NovaRocks.HashJoin
open NovaRocks.Store Relational List

section
variable {α β ν : Type} [DecidableEq ν]

def JoinNode.on (node : JoinNode α β ν) (a : α) (b : β) : Bool :=
  node.keysAgree a b && node.passes a b

variable {γ : Type}

theorem matched_append (pair : α → β → γ) (on : α → β → Bool) (left more : List α)
    (right : List β) : matched pair on (left ++ more) right = matched pair on left right ++
      matched pair on more right := by
  simp [matched]

theorem matched_flatten (pair : α → β → γ) (on : α → β → Bool) (chunks : List (List α))
    (right : List β) : chunks.flatMap (fun chunk => matched pair on chunk right) =
      matched pair on chunks.flatten right := by
  induction chunks with
  | nil => rfl
  | cons chunk chunks ih => rw [flatMap_cons, ih, flatten_cons, matched_append]

theorem matched_eq_nil {pair : α → β → γ}
    (apart : ∀ a ∈ left, ∀ b ∈ right, on a b = false) : matched pair on left right = [] := by
  simp only [matched, flatMap_eq_nil_iff, map_eq_nil_iff, filter_eq_nil_iff]
  intro a member b listed
  simp [apart a member b listed]

theorem map_matched (f : γ → δ) (pair : α → β → γ) (on : α → β → Bool) (left : List α)
    (right : List β) : (matched pair on left right).map f = matched
    (fun a b => f (pair a b)) on left right := by
  simp [matched, map_flatMap, Function.comp_def]

theorem filter_passes_matched (node : JoinNode α β ν) (left : List α) (right : List β) :
    ((matched Prod.mk node.keysAgree left right).filter fun pair => node.passes pair.1 pair.2).map joined =
      matched (fun a b => joined (a, b)) node.on left right := by
  rw [filter_matched, map_matched]
  rfl

theorem getD_emit (rows : List γ) : (emit rows).getD [] = rows := by
  cases rows <;> rfl

variable {node : JoinNode α β ν} {batches : List (List β)}

omit [DecidableEq ν] in
theorem buildKeys_ne (keyed : node.probeKeys ≠ []) : node.buildKeys ≠ [] := by
  intro none
  have same := node.sameKeys
  rw [none, length_nil, length_eq_zero_iff] at same
  exact keyed same

theorem agreeing_ne_nil (node : JoinNode α β ν) (batches : List (List β)) (a : α) :
    node.agreeing batches a ≠ [] ↔ ∃ b ∈ batches.flatten, node.keysAgree a b = true := by
  rw [← located_rows]
  constructor
  · intro nonempty
    obtain ⟨place,member⟩ := exists_mem_of_ne_nil _ nonempty
    obtain ⟨listed,agrees⟩ := mem_agreeing.mp member
    exact ⟨place.2,mem_map_of_mem listed,agrees⟩
  · rintro ⟨b,member,agrees⟩
    obtain ⟨place,listed,rfl⟩ := mem_map.mp member
    exact ne_nil_of_mem (mem_agreeing.mpr ⟨listed,agrees⟩)

theorem apart_of_isEmpty (laid : Laid table (node.entriesFrom 0 batches))
    (safe : table.nullSafeEq = node.eqNullSafe) (empty : table.isEmpty = true) (a : α) :
    ∀ b ∈ batches.flatten, node.keysAgree a b = false := by
  intro b member
  rw [Bool.eq_false_iff]
  intro agrees
  have locations := partners_locations laid safe a
  rw [laid.isEmpty empty] at locations
  cases agreeing : node.agreeing batches a with
  | nil => exact (agreeing_ne_nil node batches a).mpr ⟨b,member,agrees⟩ agreeing
  | cons place rest =>
    rw [agreeing] at locations
    cases locations

theorem CoreHolds.apart (holds : CoreHolds node core batches) (keyed : node.probeKeys ≠ [])
    (nothing : core.buildTable = none ∨ core.buildBatches = [] ∨
      ∃ table, core.buildTable = some table ∧ table.isEmpty = true) (a : α) :
    ∀ b ∈ batches.flatten, node.keysAgree a b = false := by
  rcases nothing with none | none | ⟨table,given,empty⟩
  · rcases holds.untabled none with keyless | rfl
    · exact absurd keyless (buildKeys_ne keyed)
    · simp
  · rw [holds.kept] at none
    subst none
    simp
  · obtain ⟨safe,laid⟩ := holds.table table given
    exact apart_of_isEmpty laid safe empty a

theorem on_eq_false (apart : node.keysAgree a b = false) : node.on a b = false := by
  rw [JoinNode.on, apart]
  rfl

/-! ### Batches with their pairs -/

theorem zip_range (f : Nat → γ) (batches : List (List β)) :
    batches.zip ((range batches.length).map f) = batches.zipIdx.map fun pair => (pair.1, f pair.2) := by
  apply ext_getElem
  · simp
  · intro i first second
    simp

theorem zipIdx_zip_range (f : Nat → γ) (batches : List (List β)) :
    (batches.zip ((range batches.length).map f)).zipIdx =
      batches.zipIdx.map fun pair => ((pair.1, f pair.2), pair.2) := by
  apply ext_getElem
  · simp
  · intro i first second
    simp

theorem flatMap_zipIdx (f : Nat → List γ) (batches : List (List β)) :
    batches.zipIdx.flatMap (fun pair => f pair.2) = (range batches.length).flatMap f := by
  have numbers : batches.zipIdx.map Prod.snd = range batches.length := by
    rw [zipIdx_map_snd, range_eq_range']
  rw [← numbers, flatMap_map]

theorem keyedJoinChunk_eq (laid : Laid table (node.entriesFrom 0 batches))
    (safe : table.nullSafeEq = node.eqNullSafe) (keyed : node.probeKeys ≠ []) (probe : List α) :
    node.keyedJoinChunk batches table probe = .ok (batches.zipIdx.map fun pair =>
      (inBatch pair.2 (node.candidates batches probe)).map Candidate.rows) := by
  unfold JoinNode.keyedJoinChunk
  rw [pairsByBatch_eq laid safe keyed]
  change mapM _ (batches.zip _) = _
  rw [zip_range]
  apply mapM_map_ok
  intro pair member
  exact buildJoinBatch_eq (mem_zipIdx_iff_getElem?.mp member)

theorem keyedJoinChunk_perm (probe : List α) :
    (batches.zipIdx.map fun pair =>
      (inBatch pair.2 (node.candidates batches probe)).map Candidate.rows).flatten.Perm
      (matched Prod.mk node.keysAgree probe batches.flatten) := by
  have flat : (batches.zipIdx.map fun pair =>
      (inBatch pair.2 (node.candidates batches probe)).map Candidate.rows).flatten =
      ((range batches.length).flatMap fun i => inBatch i (node.candidates batches probe)).map
        Candidate.rows := by
    rw [← flatMap_def, map_flatMap,
      flatMap_zipIdx fun i => (inBatch i (node.candidates batches probe)).map Candidate.rows]
  rw [flat]
  exact ((inBatch_perm probe).map _).trans (candidates_perm probe)

/-! ### The inner join -/

theorem flatMap_crossJoinChunk_perm (probe : List α) (batches : List (List β)) :
    (batches.flatMap (crossJoinChunk probe)).Perm
      (probe.flatMap fun a => batches.flatten.map fun b => (a, b)) := by
  induction batches with
  | nil => simp
  | cons batch batches ih =>
    have split : (probe.flatMap fun a => (batch :: batches).flatten.map fun b => (a, b)) =
        probe.flatMap fun a => (batch.map fun b => (a, b)) ++ batches.flatten.map fun b => (a, b) := by
      apply flatMap_congr
      intro a _
      rw [flatten_cons, map_append]
    rw [flatMap_cons, split]
    exact (ih.append_left _).trans (flatMap_append_perm probe _ _)

theorem keysAgree_keyless (keyless : node.probeKeys = []) (a : α) (b : β) : node.keysAgree a b = true := by
  rw [JoinNode.keysAgree, JoinNode.probeKey, keyless]
  cases node.eqNullSafe <;> rfl

theorem crossJoin_perm (keyless : node.probeKeys = []) (chunks : List (List α)) :
    (chunks.flatMap fun probe => batches.flatMap (crossJoinChunk probe)).Perm
      (matched Prod.mk node.keysAgree chunks.flatten batches.flatten) := by
  rw [← matched_flatten]
  apply Perm.flatMap_left
  intro probe _
  refine (flatMap_crossJoinChunk_perm probe batches).trans ?_
  have all : ∀ a, batches.flatten.filter (node.keysAgree a) = batches.flatten := by
    intro a
    exact filter_eq_self.mpr fun b _ => keysAgree_keyless keyless a b
  unfold matched
  simp only [all]
  exact Perm.refl _

theorem joinInner_spec (holds : CoreHolds node core batches) (chunks : List (List α)) :
    ∃ out, node.joinInner core chunks = .ok out ∧
      (out.getD []).Perm (matched (fun a b => joined (a, b)) node.on chunks.flatten batches.flatten) := by
  have nothing : (∀ a, ∀ b ∈ batches.flatten, node.keysAgree a b = false) → ([] : List (JoinedRow α β)).Perm
        (matched (fun a b => joined (a, b)) node.on chunks.flatten batches.flatten) := by
    intro apart
    rw [matched_eq_nil fun a _ b member => on_eq_false (apart a b member)]
  unfold JoinNode.joinInner
  rw [holds.kept]
  cases empty : batches.isEmpty with
  | true =>
    refine ⟨none,rfl,nothing ?_⟩
    rw [isEmpty_iff.mp empty]
    simp
  | false =>
    by_cases keyed : node.probeKeys = []
    · have width : node.probeKeys.isEmpty = true := isEmpty_iff.mpr keyed
      rw [width]
      refine ⟨_,rfl,?_⟩
      rw [getD_emit, ← filter_passes_matched]
      exact ((crossJoin_perm keyed chunks).filter _).map _
    · have width : node.probeKeys.isEmpty = false := by simpa using keyed
      rw [width]
      cases given : core.buildTable with
      | none => exact ⟨none,rfl,nothing (holds.apart keyed (.inl given))⟩
      | some table =>
        obtain ⟨safe,laid⟩ := holds.table table given
        cases groups : table.isEmpty with
        | true =>
          refine ⟨none,by simp [groups],nothing ?_⟩
          exact holds.apart keyed (.inr (.inr ⟨table,given,groups⟩))
        | false =>
          have done : chunks.mapM (node.keyedJoinChunk batches table) = .ok (chunks.map _) :=
            mapM_ok fun probe _ => keyedJoinChunk_eq laid safe keyed probe
          refine ⟨_,by simp only [groups, done]; rfl,?_⟩
          rw [getD_emit, ← filter_passes_matched]
          apply Perm.map
          apply Perm.filter
          rw [flatten_flatten, map_map, ← flatMap_def, ← matched_flatten]
          exact Perm.flatMap_left _ fun probe _ => keyedJoinChunk_perm probe

end

end NovaRocks.HashJoin
