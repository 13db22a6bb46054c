import NovaRocks.HashJoin.ProbeInner

/-!
Flags that are set while pairs are looked at. Setting flags at some places changes just
these; so the flags of the probe rows and of the build rows come out as those of the rows
that have a partner.
-/
namespace NovaRocks.HashJoin
open NovaRocks.Store Relational List

theorem getElem?_set_true (flags : List Bool) (position index : Nat) :
    (flags.set position true)[index]? = flags[index]?.map fun flag => flag || decide (position = index) := by
  by_cases same : position = index
  · subst same
    simp [getElem?_set_self', Function.const_def]
  · simp [same]

theorem getElem?_foldl_set {γ : Type} {position : γ → Nat} (items : List γ) (flags : List Bool) (index : Nat) :
    (items.foldl (fun flags item => flags.set (position item) true) flags)[index]? =
      (flags[index]?).map fun flag => flag || items.any fun item => decide (position item = index) := by
  induction items generalizing flags with
  | nil => simp
  | cons item items ih =>
    rw [foldl_cons, ih, getElem?_set_true, Option.map_map]
    congr 1
    funext flag
    simp [Bool.or_assoc]

def flagAt (flags : List (List Bool)) (batch row : Nat) : Option Bool :=
  (flags[batch]?).bind fun batchFlags => batchFlags[row]?

theorem flagAt_setFlag (flags : List (List Bool)) (batch row i j : Nat) :
    flagAt (setFlag flags batch row) i j =
      (flagAt flags i j).map fun flag => flag || decide (batch = i ∧ row = j) := by
  unfold flagAt setFlag
  rw [getElem?_modify]
  by_cases same : batch = i
  · subst same
    cases flags[batch]? with
    | none => simp
    | some batchFlags => simpa using getElem?_set_true batchFlags row j
  · simp [same]

theorem flagAt_foldl_setFlag {γ : Type} {place : γ → Nat × Nat} (items : List γ) (flags : List (List Bool))
    (i j : Nat) :
    flagAt (items.foldl (fun flags item => setFlag flags (place item).1 (place item).2) flags) i j =
      (flagAt flags i j).map fun flag => flag || items.any fun item => decide (place item = (i, j)) := by
  induction items generalizing flags with
  | nil => simp
  | cons item items ih =>
    rw [foldl_cons, ih, flagAt_setFlag, Option.map_map]
    congr 1
    funext flag
    simp [Prod.ext_iff, Bool.or_assoc]

theorem length_foldl_setFlag {γ : Type} {place : γ → Nat × Nat} (items : List γ) (flags : List (List Bool)) :
    (items.foldl (fun flags item => setFlag flags (place item).1 (place item).2) flags).length =
      flags.length := by
  induction items generalizing flags with
  | nil => rfl
  | cons item items ih => rw [foldl_cons, ih, setFlag, length_modify]

theorem flags_ext (size : flags.length = other.length)
    (same : ∀ i j, flagAt flags i j = flagAt other i j) : flags = other := by
  apply ext_getElem size
  intro i first second
  apply ext_getElem?
  intro j
  have cell := same i j
  simpa [flagAt, getElem?_eq_getElem first, getElem?_eq_getElem second] using cell

section
variable {α β ν : Type} [DecidableEq ν]

def JoinNode.marks (node : JoinNode α β ν) (batches : List (List β)) (probe : List α) : List (List Bool) :=
  batches.map fun batch => batch.map fun b => probe.any fun a => node.on a b

variable {node : JoinNode α β ν}

theorem flagAt_marks (probe : List α) (i j : Nat) :
    flagAt (node.marks batches probe) i j =
      ((batches[i]?).bind fun batch => batch[j]?).map fun b => probe.any fun a => node.on a b := by
  unfold flagAt JoinNode.marks
  rw [getElem?_map]
  cases batches[i]? with
  | none => rfl
  | some batch => simp

theorem marks_nil : node.marks batches ([] : List α) =
    batches.map fun batch => replicate batch.length false := by
  unfold JoinNode.marks
  simp

theorem marks_append {γ : Type} {place : γ → Nat × Nat} {items : List γ}
    (covers : ∀ i j b, ((batches[i]?).bind fun batch => batch[j]?) = some b →
      ((∃ item ∈ items, place item = (i, j)) ↔ ∃ a ∈ probe, node.on a b = true)) :
    items.foldl (fun flags item => setFlag flags (place item).1 (place item).2)
      (node.marks batches received) = node.marks batches (received ++ probe) := by
  apply flags_ext
  · rw [length_foldl_setFlag]
    simp [JoinNode.marks]
  · intro i j
    rw [flagAt_foldl_setFlag, flagAt_marks, flagAt_marks]
    cases found : (batches[i]?).bind fun batch => batch[j]? with
    | none => rfl
    | some b =>
      have same := covers i j b found
      simp only [Option.map_some, any_append, Option.some.injEq]
      congr 1
      rw [Bool.eq_iff_iff]
      simpa using same

theorem candidates_cover (probe : List α) (items : List (Candidate α β))
    (same : ∀ candidate, candidate ∈ items ↔ candidate ∈ node.candidates batches probe ∧
      node.passes candidate.a candidate.b = true) :
    ∀ i j b, ((batches[i]?).bind fun batch => batch[j]?) = some b →
      ((∃ candidate ∈ items, (candidate.batch, candidate.row) = (i, j)) ↔
        ∃ a ∈ probe, node.on a b = true) := by
  intro i j b found
  constructor
  · rintro ⟨candidate,member,place⟩
    obtain ⟨listed,passes⟩ := (same candidate).mp member
    obtain ⟨here,⟨batch,owner,row⟩,agrees⟩ := mem_candidates.mp listed
    cases place
    rw [owner] at found
    have equal : candidate.b = b := Option.some.inj (row.symm.trans found)
    refine ⟨candidate.a,mem_of_getElem? here,?_⟩
    rw [← equal, JoinNode.on, agrees, passes]
    rfl
  · rintro ⟨a,member,on⟩
    obtain ⟨agrees,passes⟩ := Bool.and_eq_true_iff.mp on
    obtain ⟨p,here⟩ := getElem?_of_mem member
    exact ⟨⟨p,i,j,a,b⟩,(same _).mpr
      ⟨mem_candidates.mpr ⟨here,Option.bind_eq_some_iff.mp found,agrees⟩,passes⟩,rfl⟩

theorem candidates_matched (probe : List α) (items : List (Candidate α β))
    (same : ∀ candidate, candidate ∈ items ↔ candidate ∈ node.candidates batches probe ∧
      node.passes candidate.a candidate.b = true) (p : Nat) (a : α) (here : probe[p]? = some a) :
    (items.any fun candidate => decide (candidate.probeRow = p)) = hasPartner node.on batches.flatten a := by
  rw [Bool.eq_iff_iff, hasPartner_iff, any_eq_true]
  constructor
  · rintro ⟨candidate,member,row⟩
    obtain ⟨listed,passes⟩ := (same candidate).mp member
    obtain ⟨found,⟨batch,owner,place⟩,agrees⟩ := mem_candidates.mp listed
    rw [of_decide_eq_true row, here] at found
    cases found
    refine ⟨candidate.b,mem_flatten.mpr ⟨batch,mem_of_getElem? owner,mem_of_getElem? place⟩,?_⟩
    rw [JoinNode.on, agrees, passes]
    rfl
  · rintro ⟨b,member,on⟩
    obtain ⟨agrees,passes⟩ := Bool.and_eq_true_iff.mp on
    obtain ⟨batch,listed,inside⟩ := mem_flatten.mp member
    obtain ⟨i,owner⟩ := getElem?_of_mem listed
    obtain ⟨j,place⟩ := getElem?_of_mem inside
    exact ⟨⟨p,i,j,a,b⟩,(same _).mpr ⟨mem_candidates.mpr ⟨here,⟨batch,owner,place⟩,agrees⟩,passes⟩,
      decide_eq_true rfl⟩

end

end NovaRocks.HashJoin
