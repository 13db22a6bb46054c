import Mathlib.Data.List.Perm.Basic
import NovaRocks.HashJoin.BuildSinkSpec
import NovaRocks.HashJoin.ProbeCore
import NovaRocks.Relational.Join

/-!
The candidate pairs of a probe chunk. For each probe row the table gives the places, batch
and number, of the build rows with an equal key; the index pairs the probe side collects batch
by batch are those candidates. Over all batches they are, up to order, each probe row with
each build row whose key matches it.
-/
namespace NovaRocks.HashJoin
open NovaRocks.Store List

section
variable {ν : Type} [DecidableEq ν]

/-- Are two values of a key column equal, NULL being equal to NULL only where that is safe? -/
def valuesMatch (safe : Bool) : Option ν → Option ν → Bool
  | some a, some b => decide (a = b)
  | none, none => safe
  | _, _ => false

def keysMatch : List Bool → List (Option ν) → List (Option ν) → Bool
  | safe :: flags, a :: as, b :: bs => valuesMatch safe a b && keysMatch flags as bs
  | _, _, _ => true

theorem keysMatch_iff (flags : List Bool) (a b : List (Option ν)) (first : a.length = flags.length)
    (second : b.length = flags.length) :
    (keysMatch flags a b = true ↔ rowHasForbiddenNull flags a = false ∧ b = a) := by
  induction flags generalizing a b with
  | nil =>
    rw [length_eq_zero_iff.mp first, length_eq_zero_iff.mp second]
    simp [keysMatch, rowHasForbiddenNull]
  | cons safe flags ih =>
    cases a with
    | nil => simp at first
    | cons x xs =>
      cases b with
      | nil => simp at second
      | cons y ys =>
        simp only [length_cons, Nat.add_right_cancel_iff] at first second
        simp only [keysMatch, rowHasForbiddenNull, Bool.and_eq_true, cons.injEq, ih xs ys first second]
        cases x with
        | none => cases y <;> cases safe <;> simp [valuesMatch]
        | some x =>
          cases y with
          | none => simp [valuesMatch]
          | some y =>
            simp only [valuesMatch, decide_eq_true_eq, Option.isNone_some, Bool.and_false,
              Option.some.injEq]
            constructor
            · rintro ⟨same,allowed,rest⟩
              exact ⟨allowed,same.symm,rest⟩
            · rintro ⟨allowed,same,rest⟩
              exact ⟨same.symm,allowed,rest⟩

end

section
variable {α β ν : Type} [DecidableEq ν]

section
variable (node : JoinNode α β ν)

def JoinNode.keysAgree (a : α) (b : β) : Bool :=
  keysMatch node.eqNullSafe (node.probeKey a) (node.buildKey b)

theorem keysAgree_iff (a : α) (b : β) :
    node.keysAgree a b = true ↔ rowHasForbiddenNull node.eqNullSafe (node.probeKey a) = false ∧
      node.buildKey b = node.probeKey a := by
  apply keysMatch_iff
  · rw [JoinNode.probeKey, length_map, node.sameKeys, node.flagEach]
  · rw [JoinNode.buildKey, length_map, node.flagEach]

/-! ### Places of build rows -/

def locatedFrom : Nat → List (List β) → List ((Nat × Nat) × β)
  | _, [] => []
  | first, batch :: batches =>
    (batch.zipIdx.map fun (row, index) => ((first, index), row)) ++ locatedFrom (first + 1) batches

section
variable (batches : List (List β))

def located : List ((Nat × Nat) × β) :=
  locatedFrom 0 batches

theorem locatedFrom_rows (first : Nat) : (locatedFrom first batches).map Prod.snd = batches.flatten := by
  induction batches generalizing first with
  | nil => rfl
  | cons batch batches ih =>
    rw [locatedFrom, map_append, ih, flatten_cons, map_map]
    congr 1
    exact zipIdx_map_fst 0 batch

theorem located_rows : (located batches).map Prod.snd = batches.flatten :=
  locatedFrom_rows batches 0

omit [DecidableEq ν] in
theorem entriesFrom_eq (first : Nat) : node.entriesFrom first batches =
    (locatedFrom first batches).map fun place => ⟨node.buildKey place.2, place.1.1, place.1.2⟩ := by
  induction batches generalizing first with
  | nil => rfl
  | cons batch batches ih =>
    rw [JoinNode.entriesFrom, locatedFrom, map_append, ih, batchEntries, zipIdx_map, map_map, map_map]
    rfl

theorem locatedFrom_eq (first : Nat) : locatedFrom first batches = (batches.zipIdx first).flatMap fun batch =>
    batch.1.zipIdx.map fun row => ((batch.2, row.2), row.1) := by
  induction batches generalizing first with
  | nil => rfl
  | cons batch batches ih =>
    rw [locatedFrom, ih]
    rfl

end

theorem mem_located {place : (Nat × Nat) × β} : place ∈ located batches ↔
    ∃ batch, batches[place.1.1]? = some batch ∧ batch[place.1.2]? = some place.2 := by
  rw [located, locatedFrom_eq, mem_flatMap]
  constructor
  · rintro ⟨⟨batch,index⟩,found,listed⟩
    obtain ⟨row,inside,rfl⟩ := mem_map.mp listed
    exact ⟨batch,mem_zipIdx_iff_getElem?.mp found,mem_zipIdx_iff_getElem?.mp inside⟩
  · rintro ⟨batch,found,row⟩
    exact ⟨(batch, place.1.1),mem_zipIdx_iff_getElem?.mpr found,
      mem_map.mpr ⟨(place.2, place.1.2),mem_zipIdx_iff_getElem?.mpr row,rfl⟩⟩

/-! ### The places a key finds -/

theorem mapM_positions {γ δ : Type} {items : List γ} {test : γ → Bool} {read : Nat → Except String δ}
    {value : γ → δ} (reads : ∀ (id : Nat) item, items[id]? = some item → read id = .ok (value item)) :
    ((range items.length).filter fun id => (items[id]?).any test).reverse.mapM read =
      .ok ((items.filter test).reverse.map value) := by
  induction items using reverseRecOn with
  | nil => rfl
  | append_singleton items item ih =>
    have before : ∀ (id : Nat) found, items[id]? = some found → read id = .ok (value found) := by
      intro id found at'
      apply reads id found
      rw [getElem?_append_left (List.getElem?_eq_some_iff.mp at').1]
      exact at'
    have here : read items.length = .ok (value item) := reads _ _ (getElem?_concat_length)
    have same : ((range items.length).filter fun id => ((items ++ [item])[id]?).any test) =
        (range items.length).filter fun id => (items[id]?).any test := by
      apply filter_congr
      intro id member
      rw [getElem?_append_left (mem_range.mp member)]
    rw [length_append, length_singleton, range_succ, filter_append, same,
      filter_append, reverse_append, reverse_append, mapM_append, ih before]
    cases passes : test item with
    | true =>
      simp only [filter_cons, getElem?_concat_length, Option.any_some, passes, if_true,
        filter_nil, reverse_singleton, mapM_cons, here]
      rfl
    | false =>
      simp only [filter_cons, getElem?_concat_length, Option.any_some, passes]
      rfl

def JoinNode.agreeing (batches : List (List β)) (a : α) : List ((Nat × Nat) × β) :=
  ((located batches).filter fun place => node.keysAgree a place.2).reverse

end

variable {node : JoinNode α β ν} {table : JoinHashTable ν} {batches : List (List β)}

variable (laid : Laid table (node.entriesFrom 0 batches)) (safe : table.nullSafeEq = node.eqNullSafe)

include laid safe in
theorem partners_locations (a : α) :
    (partners table.nullSafeEq (node.entriesFrom 0 batches) (node.probeKey a)).mapM table.rowLocation =
      .ok ((node.agreeing batches a).map Prod.fst) := by
  unfold partners JoinNode.agreeing
  rw [safe]
  cases forbidden : rowHasForbiddenNull node.eqNullSafe (node.probeKey a) with
  | true =>
    have none : (located batches).filter (fun place => node.keysAgree a place.2) = [] := by
      apply filter_eq_nil_iff.mpr
      intro place _ agrees
      rw [((keysAgree_iff node a place.2).mp agrees).1] at forbidden
      cases forbidden
    rw [none]
    rfl
  | false =>
    have tests : ∀ place : (Nat × Nat) × β, node.keysAgree a place.2 =
        decide (node.buildKey place.2 = node.probeKey a) := by
      intro place
      rw [Bool.eq_iff_iff, keysAgree_iff, decide_eq_true_eq]
      exact ⟨fun both => both.2,fun same => ⟨forbidden,same⟩⟩
    have reads : ∀ (id : Nat) place, (located batches)[id]? = some place →
        table.rowLocation id = .ok place.1 := by
      intro id place found
      have entry : (node.entriesFrom 0 batches)[id]? =
          some ⟨node.buildKey place.2,place.1.1,place.1.2⟩ := by
        rw [entriesFrom_eq, getElem?_map]
        change Option.map _ (located batches)[id]? = _
        rw [found]
        rfl
      exact laid.rowLocation entry
    have ids : idsOf (node.entriesFrom 0 batches) (node.entriesFrom 0 batches).length (node.probeKey a) =
        ((range (located batches).length).filter fun id =>
          ((located batches)[id]?).any fun place => node.keysAgree a place.2).reverse := by
      unfold idsOf
      rw [entriesFrom_eq, length_map]
      congr 1
      apply filter_congr
      intro id _
      rw [keyAt, getElem?_map, Bool.eq_iff_iff, decide_eq_true_eq]
      change Option.map _ (Option.map _ (located batches)[id]?) = _ ↔ _
      cases (located batches)[id]? with
      | none => simp
      | some place => simp [tests]
    rw [ids]
    exact mapM_positions reads

/-! ### Candidates -/

structure Candidate (α β : Type) where
  probeRow : Nat
  batch : Nat
  row : Nat
  a : α
  b : β

def Candidate.indices (candidate : Candidate α β) : Nat × Nat :=
  (candidate.probeRow, candidate.row)

open Candidate (indices)

def Candidate.rows (candidate : Candidate α β) : α × β :=
  (candidate.a, candidate.b)

def JoinNode.candidatesFrom (node : JoinNode α β ν) (batches : List (List β)) :
    Nat → List α → List (Candidate α β)
  | _, [] => []
  | first, a :: probe =>
    ((node.agreeing batches a).map fun place => ⟨first, place.1.1, place.1.2, a, place.2⟩) ++
      node.candidatesFrom batches (first + 1) probe

open JoinNode (agreeing candidatesFrom)

def JoinNode.candidates (node : JoinNode α β ν) (batches : List (List β)) (probe : List α) :
    List (Candidate α β) :=
  node.candidatesFrom batches 0 probe

def inBatch (batch : Nat) (candidates : List (Candidate α β)) : List (Candidate α β) :=
  candidates.filter fun candidate => decide (candidate.batch = batch)

theorem mem_agreeing {place : (Nat × Nat) × β} :
    place ∈ node.agreeing batches a ↔ place ∈ located batches ∧ node.keysAgree a place.2 = true := by
  simp [agreeing]

theorem candidatesFrom_eq (probe : List α) (first : Nat) :
    node.candidatesFrom batches first probe = (probe.zipIdx first).flatMap fun a =>
      (node.agreeing batches a.1).map fun place => ⟨a.2, place.1.1, place.1.2, a.1, place.2⟩ := by
  induction probe generalizing first with
  | nil => rfl
  | cons a probe ih =>
    rw [candidatesFrom, ih]
    rfl

variable {probe : List α}

theorem mem_candidates :
    candidate ∈ node.candidates batches probe ↔ probe[candidate.probeRow]? = some candidate.a ∧
        (∃ batch, batches[candidate.batch]? = some batch ∧ batch[candidate.row]? = some candidate.b) ∧
        node.keysAgree candidate.a candidate.b = true := by
  rw [JoinNode.candidates, candidatesFrom_eq, mem_flatMap]
  constructor
  · rintro ⟨a,here,listed⟩
    obtain ⟨place,found,rfl⟩ := mem_map.mp listed
    obtain ⟨inside,agrees⟩ := mem_agreeing.mp found
    exact ⟨mem_zipIdx_iff_getElem?.mp here,mem_located.mp inside,agrees⟩
  · rintro ⟨here,place,agrees⟩
    exact ⟨(candidate.a, candidate.probeRow),mem_zipIdx_iff_getElem?.mpr here,
      mem_map.mpr ⟨((candidate.batch, candidate.row), candidate.b),
        mem_agreeing.mpr ⟨mem_located.mpr place,agrees⟩,rfl⟩⟩

/-! ### Index pairs by batch -/

theorem set_map_range {γ : Type} (f : Nat → γ) (value : γ) : ((range size).map f).set index value =
      (range size).map fun i => if i = index then value else f i := by
  apply ext_getElem
  · simp
  · intro i first second
    simp only [getElem_set, getElem_map, getElem_range, eq_comm]

theorem foldlM_placePair (locations : List (Nat × Nat)) (f : Nat → List (Nat × Nat))
    (below : ∀ location ∈ locations, location.1 < size) :
    locations.foldlM (placePair probeRow) ((range size).map f) = .ok ((range size).map fun i =>
      f i ++ (locations.filter fun location => decide (location.1 = i)).map fun location =>
        (probeRow, location.2)) := by
  induction locations generalizing f with
  | nil =>
    simp only [filter_nil, map_nil, append_nil]
    rfl
  | cons location locations ih =>
    have inside := below location mem_cons_self
    have found : ((range size).map f)[location.1]? = some (f location.1) := by
      simp [inside]
    rw [foldlM_cons]
    simp only [placePair, found, set_map_range]
    change locations.foldlM (placePair probeRow) ((range size).map _) = _
    rw [ih _ fun other member => below other (mem_cons_of_mem _ member)]
    congr 2
    funext i
    by_cases same : i = location.1
    · subst same
      simp
    · simp [same, Ne.symm same]

include laid safe in
theorem group_cases (a : α) :
    (table.lookupGroupId (node.probeKey a) = none ∧ node.agreeing batches a = []) ∨
      ∃ group rows, table.lookupGroupId (node.probeKey a) = some group ∧ table.groupRowsSlice group = .ok rows ∧
        rows.mapM table.rowLocation = .ok ((node.agreeing batches a).map Prod.fst) ∧
        node.agreeing batches a ≠ [] := by
  have locations := partners_locations laid safe a
  rcases laid.lookup (node.probeKey a) with ⟨looked,nothing⟩ | ⟨group,looked,slice,something⟩
  · rw [nothing] at locations
    exact .inl ⟨looked,map_eq_nil_iff.mp (Except.ok.inj locations).symm⟩
  · refine .inr ⟨group,_,looked,slice,locations,fun none => ?_⟩
    rw [none] at locations
    obtain ⟨id,ids,found⟩ := exists_cons_of_ne_nil something
    rw [found, mapM_cons] at locations
    obtain ⟨location,-,rest⟩ := bind_ok locations
    obtain ⟨others,-,done⟩ := bind_ok rest
    cases done

include laid safe in
theorem placeGroup_eq (count : batches.length = size) (a : α) (probeRow : Nat) (f : Nat → List (Nat × Nat)) :
    table.placeGroup ((range size).map f) (table.lookupGroupId (node.probeKey a), probeRow) =
      .ok ((range size).map fun i =>
        f i ++ ((node.agreeing batches a).filter fun place => decide (place.1.1 = i)).map fun place =>
          (probeRow, place.1.2)) := by
  rcases group_cases laid safe a with ⟨looked,none⟩ | ⟨group,rows,looked,slice,locations,-⟩
  · simp [JoinHashTable.placeGroup, looked, none]
  · have below : ∀ location ∈ (node.agreeing batches a).map Prod.fst, location.1 < size := by
      intro location member
      obtain ⟨place,listed,rfl⟩ := mem_map.mp member
      obtain ⟨batch,found,-⟩ := mem_located.mp (mem_agreeing.mp listed).1
      rw [← count]
      exact (List.getElem?_eq_some_iff.mp found).1
    rw [looked]
    change (table.groupRowsSlice group >>= fun rows => _) = _
    rw [slice]
    change (mapM table.rowLocation _ >>= fun locations => _) = _
    rw [locations]
    change foldlM (placePair probeRow) _ _ = _
    rw [foldlM_placePair _ f below]
    congr 2
    funext i
    rw [filter_map, map_map]
    rfl

include laid safe in
theorem placeGroups_eq (count : batches.length = size) (probe : List α) (first : Nat)
    (f : Nat → List (Nat × Nat)) :
    ((probe.map fun a => table.lookupGroupId (node.probeKey a)).zipIdx first).foldlM table.placeGroup
        ((range size).map f) =
      .ok ((range size).map fun i =>
        f i ++ (inBatch i (node.candidatesFrom batches first probe)).map indices) := by
  induction probe generalizing first f with
  | nil =>
    simp only [map_nil, candidatesFrom, inBatch, filter_nil, append_nil]
    rfl
  | cons a probe ih =>
    rw [map_cons, zipIdx_cons, foldlM_cons, placeGroup_eq laid safe count]
    change foldlM table.placeGroup ((range size).map _) _ = _
    rw [ih (first + 1)]
    simp only [candidatesFrom, inBatch, filter_append, map_append, filter_map,
      map_map, append_assoc]
    rfl

theorem lookupGroupIds_eq (keyed : node.probeKeys ≠ []) (probe : List α) :
    node.lookupGroupIds table probe = .ok (probe.map fun a => table.lookupGroupId (node.probeKey a)) := by
  have width : node.probeKeys.isEmpty = false := by simpa using keyed
  cases probe with
  | nil => rfl
  | cons a probe => simp [JoinNode.lookupGroupIds, width]

include laid safe in
theorem pairsByBatch_eq (keyed : node.probeKeys ≠ []) (probe : List α) :
    node.pairsByBatch table batches.length probe = .ok ((range batches.length).map fun i =>
      (inBatch i (node.candidates batches probe)).map indices) := by
  have empty : replicate batches.length ([] : List (Nat × Nat)) =
      (range batches.length).map fun _ => [] := by simp
  unfold JoinNode.pairsByBatch
  rw [lookupGroupIds_eq keyed]
  change foldlM table.placeGroup _ _ = _
  rw [empty, placeGroups_eq laid safe rfl]
  rfl

/-! ### The candidates' rows -/

theorem mapM_map_ok {γ δ ε : Type} {f : γ → δ} {g : δ → Except String ε} {h : γ → ε} (items : List γ)
    (reads : ∀ item ∈ items, g (f item) = .ok (h item)) : (items.map f).mapM g = .ok (items.map h) := by
  rw [mapM_map]
  exact mapM_ok reads

def Placed (probe : List α) (batch : List β) (candidates : List (Candidate α β)) : Prop :=
  ∀ candidate ∈ candidates, probe[candidate.probeRow]? = some candidate.a ∧
    batch[candidate.row]? = some candidate.b

variable {batch : List β}

theorem Placed.buildJoinBatch (placed : Placed probe batch candidates) :
    buildJoinBatch probe batch (candidates.map indices) =
      .ok (candidates.map Candidate.rows) := by
  apply mapM_map_ok
  intro candidate member
  obtain ⟨here,there⟩ := placed candidate member
  simp [indices, takeRow, here, there]
  rfl

theorem inBatch_placed (found : batches[index]? = some batch) :
    Placed probe batch (inBatch index (node.candidates batches probe)) := by
  intro candidate member
  obtain ⟨listed,here⟩ := mem_filter.mp member
  have number : candidate.batch = index := of_decide_eq_true here
  obtain ⟨probeRow,⟨owner,named,row⟩,-⟩ := mem_candidates.mp listed
  rw [number, found] at named
  cases named
  exact ⟨probeRow,row⟩

theorem buildJoinBatch_eq (found : batches[index]? = some batch) :
    buildJoinBatch probe batch ((inBatch index (node.candidates batches probe)).map indices) =
      .ok ((inBatch index (node.candidates batches probe)).map Candidate.rows) :=
  (inBatch_placed found).buildJoinBatch

theorem inBatch_perm (probe : List α) :
    ((range batches.length).flatMap fun i => inBatch i (node.candidates batches probe)).Perm
      (node.candidates batches probe) := by
  have all : ((node.candidates batches probe).filter fun candidate =>
      decide (candidate.batch ∈ range batches.length)) = node.candidates batches probe := by
    apply filter_eq_self.mpr
    intro candidate member
    obtain ⟨-,⟨batch,found,-⟩,-⟩ := mem_candidates.mp member
    exact decide_eq_true (mem_range.mpr (List.getElem?_eq_some_iff.mp found).1)
  conv_rhs => rw [← all]
  exact Relational.flatMap_filter_perm nodup_range

theorem candidates_perm (probe : List α) : ((node.candidates batches probe).map Candidate.rows).Perm
    (Relational.matched Prod.mk node.keysAgree probe batches.flatten) := by
  rw [JoinNode.candidates, candidatesFrom_eq, map_flatMap, Relational.matched]
  conv_rhs => rw [← zipIdx_map_fst 0 probe, flatMap_map]
  refine Perm.flatMap_left _ fun a _ => ?_
  rw [map_map, agreeing, ← located_rows batches, filter_map, map_map, map_reverse]
  exact reverse_perm _

end

end NovaRocks.HashJoin
