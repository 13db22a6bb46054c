import NovaRocks.SetOp.DistinctSet

/-!
What the table and its markers say about the rows that have come: the table has each row of
the first input once, and the marker of a row agrees with the other inputs that had the row.
For this the inputs must come one after the other.
-/
namespace NovaRocks.SetOp
open List

/-! ### Markers and the inputs that had a row -/

/-- A way to read the markers of one row: `had` says which inputs had the row. -/
structure Tracks (semantics : DistinctSetSemantics M) (stageTotal : Nat)
    (agrees : (Nat → Prop) → M → Prop) (wanted : (Nat → Prop) → Prop) : Prop where
  new : ∀ had, (∀ stage, 0 < stage → ¬ had stage) → agrees had semantics.newMarker
  probe : ∀ had marker stage, 0 < stage → stage < stageTotal → (∀ later, stage < later → ¬ had later) →
    agrees had marker →
      ∃ changed, semantics.applyProbe marker stage = .ok changed ∧
        agrees (fun input => had input ∨ input = stage) changed
  first : ∀ had had' marker, (∀ stage, 0 < stage → (had stage ↔ had' stage)) → agrees had marker →
    agrees had' marker
  selected : ∀ had marker, agrees had marker →
    ∃ chosen, semantics.markerSelected marker stageTotal = .ok chosen ∧ (chosen = true ↔ wanted had)

def exceptAgrees (stageTotal : Nat) (had : Nat → Prop) (marker : Bool) : Prop :=
  marker = true ↔ ∃ stage, 0 < stage ∧ stage < stageTotal ∧ had stage

def exceptWanted (stageTotal : Nat) (had : Nat → Prop) : Prop :=
  ∀ stage, 0 < stage → stage < stageTotal → ¬ had stage

theorem except_tracks (stageTotal : Nat) :
    Tracks exceptSemantics stageTotal (exceptAgrees stageTotal) (exceptWanted stageTotal) where
  new had none := by
    constructor
    · intro marked
      cases marked
    · rintro ⟨stage,positive,-,present⟩
      exact absurd present (none stage positive)
  probe had marker stage positive below _ agrees := by
    refine ⟨true,rfl,?_⟩
    exact ⟨fun _ => ⟨stage,positive,below,.inr rfl⟩,fun _ => rfl⟩
  first had had' marker same agrees := by
    refine agrees.trans (exists_congr fun stage => and_congr_right fun positive => ?_)
    exact and_congr_right fun _ => same stage positive
  selected had marker agrees := by
    refine ⟨!marker,rfl,?_⟩
    cases marker with
    | true =>
      obtain ⟨stage,positive,below,present⟩ := agrees.mp rfl
      constructor
      · intro chosen
        cases chosen
      · intro wanted
        exact absurd present (wanted stage positive below)
    | false =>
      constructor
      · intro _ stage positive below present
        exact Bool.false_ne_true (agrees.mpr ⟨stage,positive,below,present⟩)
      · intro _
        rfl

/-- The other inputs up to the marker had the row, and the next one did not. -/
def intersectAgrees (had : Nat → Prop) (marker : Nat) : Prop :=
  (∀ stage, 0 < stage → stage ≤ marker → had stage) ∧ ¬ had (marker + 1)

def intersectWanted (stageTotal : Nat) (had : Nat → Prop) : Prop :=
  ∀ stage, 0 < stage → stage < stageTotal → had stage

theorem u16TryFrom_ok (small : value ≤ 65535) : u16TryFrom value = .ok value :=
  if_pos small

theorem intersect_applyProbe (small : stage ≤ 65535) (marker : Nat) :
    intersectSemantics.applyProbe marker stage = .ok (if marker = stage - 1 then stage else marker) := by
  have less : stage - 1 ≤ 65535 := by omega
  change (u16TryFrom stage >>= fun stageU16 => u16TryFrom (stage - 1) >>= fun prevU16 =>
    Except.ok (if marker = prevU16 then stageU16 else marker)) = _
  rw [u16TryFrom_ok small, u16TryFrom_ok less]
  rfl

theorem intersect_markerSelected (few : stageTotal ≤ 65536) (marker : Nat) :
    intersectSemantics.markerSelected marker stageTotal = .ok (marker == stageTotal - 1) := by
  have small : stageTotal - 1 ≤ 65535 := by omega
  change (u16TryFrom (stageTotal - 1) >>= fun finalHit => Except.ok (marker == finalHit)) = _
  rw [u16TryFrom_ok small]
  rfl

theorem intersect_tracks (several : 2 ≤ stageTotal) (few : stageTotal ≤ 65536) :
    Tracks intersectSemantics stageTotal
      (fun had marker => intersectAgrees had marker ∧ ∀ stage, stageTotal ≤ stage → ¬ had stage)
      (intersectWanted stageTotal) where
  new had none := by
    refine ⟨⟨?_,none 1 (by decide)⟩,fun stage above => none stage (by omega)⟩
    intro stage positive low
    change stage ≤ 0 at low
    omega
  probe had marker stage positive below later agrees := by
    obtain ⟨⟨upTo,next⟩,beyond⟩ := agrees
    refine ⟨_,intersect_applyProbe (by omega) marker,⟨?_,?_⟩,?_⟩
    · intro input inputPositive low
      split at low
      case isTrue same =>
        by_cases last : input = stage
        · exact .inr last
        · exact .inl (upTo input inputPositive (by omega))
      case isFalse other => exact .inl (upTo input inputPositive low)
    · split
      case isTrue same =>
        rintro (present | equal)
        · exact later (stage + 1) (by omega) present
        · omega
      case isFalse other =>
        rintro (present | equal)
        · exact next present
        · omega
    · intro input above
      rintro (present | equal)
      · exact beyond input above present
      · omega
  first had had' marker same agrees := by
    obtain ⟨⟨upTo,next⟩,beyond⟩ := agrees
    refine ⟨⟨?_,?_⟩,?_⟩
    · intro stage positive low
      exact (same stage positive).mp (upTo stage positive low)
    · intro present
      exact next ((same (marker + 1) (by omega)).mpr present)
    · intro stage above present
      exact beyond stage above ((same stage (by omega)).mpr present)
  selected had marker agrees := by
    obtain ⟨⟨upTo,next⟩,beyond⟩ := agrees
    refine ⟨_,intersect_markerSelected few marker,?_⟩
    rw [beq_iff_eq]
    constructor
    · intro last stage positive below
      exact upTo stage positive (by omega)
    · intro wanted
      have high : ¬ marker + 1 < stageTotal := fun below => next (wanted (marker + 1) (by omega) below)
      have low : ¬ stageTotal ≤ marker := fun above => beyond marker above (upTo marker (by omega) (by omega))
      omega

/-! ### The table -/

section
variable {α M : Type} [DecidableEq α] {semantics : DistinctSetSemantics M} {stageTotal : Nat}
  {agrees : (Nat → Prop) → M → Prop} {wanted : (Nat → Prop) → Prop}

/-- Each row of the first input is in the table once, and its marker agrees with the other inputs. -/
structure Filled (agrees : (Nat → Prop) → M → Prop) (seen : Nat → α → Prop) (keys : List α)
    (markers : List M) : Prop where
  distinct : keys.Nodup
  mem_keys : ∀ row, row ∈ keys ↔ seen 0 row
  length : markers.length = keys.length
  marked : ∀ (groupId : Nat) row marker, keys[groupId]? = some row → markers[groupId]? = some marker →
    agrees (fun stage => seen stage row) marker

def alsoSeen (seen : Nat → α → Prop) (stage : Nat) (rows : List α) : Nat → α → Prop :=
  fun input row => seen input row ∨ input = stage ∧ row ∈ rows

variable {keys : List α}

omit [DecidableEq α] in
theorem alsoSeen_of_ne {stage input : Nat} (different : input ≠ stage) (seen : Nat → α → Prop) (rows : List α)
    (row : α) : alsoSeen seen stage rows input row ↔ seen input row := by
  simp [alsoSeen, different]

omit [DecidableEq α] in
theorem alsoSeen_early (early : ∀ later row, stage < later → ¬ seen later row) (rows : List α) :
    ∀ later row, stage < later → ¬ alsoSeen seen stage rows later row := by
  intro later row after
  rw [alsoSeen_of_ne (by omega)]
  exact early later row after

omit [DecidableEq α] in
theorem Filled.congr
    (filled : Filled agrees seen keys markers) (same : ∀ stage row, seen stage row ↔ seen' stage row) :
    Filled agrees seen' keys markers := by
  have equal : seen = seen' := by
    funext stage row
    exact propext (same stage row)
  rw [← equal]
  exact filled

variable (tracks : Tracks semantics stageTotal agrees wanted)

include tracks in
theorem ingestBuildRow_filled (filled : Filled agrees seen keys markers)
    (early : ∀ stage row, 0 < stage → ¬ seen stage row) (row : α) :
    ∃ keys' markers', ingestBuildRow semantics (keys, markers) row = .ok (keys', markers') ∧
      Filled agrees (alsoSeen seen 0 [row]) keys' markers' := by
  unfold ingestBuildRow
  have kept : ∀ other marker, agrees (fun stage => seen stage other) marker →
      agrees (fun stage => alsoSeen seen 0 [row] stage other) marker := by
    intro other marker holds
    refine tracks.first _ _ marker ?_ holds
    intro stage positive
    exact (alsoSeen_of_ne (by omega) seen [row] other).symm
  by_cases known : row ∈ keys
  · refine ⟨keys,markers,if_pos known,filled.distinct,?_,filled.length,?_⟩
    · intro other
      rw [filled.mem_keys]
      constructor
      · exact .inl
      · rintro (before | ⟨-,same⟩)
        · exact before
        · rw [mem_singleton.mp same, ← filled.mem_keys]
          exact known
    · intro groupId other marker found marked
      exact kept other marker (filled.marked groupId other marker found marked)
  · refine ⟨keys ++ [row],markers ++ [semantics.newMarker],?_,?_,?_,?_,?_⟩
    · rw [if_neg known, if_neg (not_not.mpr filled.length.symm)]
    · rw [← concat_eq_append]
      exact filled.distinct.concat known
    · intro other
      simp [alsoSeen, filled.mem_keys]
    · rw [length_append, length_append, filled.length]
      rfl
    · intro groupId other marker found marked
      rw [getElem?_append] at found marked
      rw [filled.length] at marked
      by_cases inside : groupId < keys.length
      · rw [if_pos inside] at found marked
        exact kept other marker (filled.marked groupId other marker found marked)
      · rw [if_neg inside] at found marked
        obtain ⟨-,new⟩ : _ ∧ semantics.newMarker = marker := by simpa [getElem?_singleton] using marked
        rw [← new]
        apply kept
        apply tracks.new
        intro stage positive
        exact early stage other positive

omit [DecidableEq α] in
theorem alsoSeen_cons (seen : Nat → α → Prop) (stage : Nat) (row : α) (rows : List α) (input : Nat)
    (other : α) :
    alsoSeen (alsoSeen seen stage [row]) stage rows input other ↔
      alsoSeen seen stage (row :: rows) input other := by
  unfold alsoSeen
  rw [mem_singleton, mem_cons]
  tauto

include tracks in
theorem foldlM_ingestBuildRow (rows : List α) (filled : Filled agrees seen keys markers)
    (early : ∀ stage row, 0 < stage → ¬ seen stage row) :
    ∃ keys' markers', rows.foldlM (ingestBuildRow semantics) (keys, markers) = .ok (keys', markers') ∧
      Filled agrees (alsoSeen seen 0 rows) keys' markers' := by
  induction rows generalizing seen keys markers with
  | nil => exact ⟨keys,markers,rfl,filled.congr fun stage row => by simp [alsoSeen]⟩
  | cons row rows ih =>
    obtain ⟨keys',markers',done,next⟩ := ingestBuildRow_filled tracks filled early row
    obtain ⟨keys'',markers'',rest,last⟩ := ih next (alsoSeen_early early [row])
    refine ⟨keys'',markers'',?_,last.congr (alsoSeen_cons seen 0 row rows)⟩
    rw [foldlM_cons, done]
    exact rest

include tracks in
theorem ingestProbeRow_filled (positive : 0 < stage) (below : stage < stageTotal)
    (filled : Filled agrees seen keys markers) (early : ∀ later row, stage < later → ¬ seen later row)
    (row : α) :
    ∃ markers', ingestProbeRow semantics stage keys markers row = .ok markers' ∧
      Filled agrees (alsoSeen seen stage [row]) keys markers' := by
  have members : ∀ other, other ∈ keys ↔ alsoSeen seen stage [row] 0 other := by
    intro other
    rw [filled.mem_keys, alsoSeen_of_ne (by omega)]
  -- The marker of another row says the same as before.
  have kept : ∀ other marker, other ≠ row → agrees (fun input => seen input other) marker →
      agrees (fun input => alsoSeen seen stage [row] input other) marker := by
    intro other marker different holds
    refine tracks.first _ _ marker ?_ holds
    simp [alsoSeen, different]
  unfold ingestProbeRow
  cases located : keys.idxOf? row with
  | none =>
    have absent : row ∉ keys := idxOf?_eq_none_iff.mp located
    refine ⟨markers,rfl,filled.distinct,members,filled.length,?_⟩
    intro groupId other marker found marked
    exact kept other marker (ne_of_mem_of_not_mem (mem_of_getElem? found) absent)
      (filled.marked groupId other marker found marked)
  | some groupId =>
    obtain ⟨inside,here,-⟩ := idxOf?_eq_some_iff.mp located
    have found : keys[groupId]? = some row := by
      rw [getElem?_eq_getElem inside, here]
    obtain ⟨marker,marked⟩ : ∃ marker, markers[groupId]? = some marker :=
      ⟨_,getElem?_eq_getElem (by rw [filled.length]; exact inside)⟩
    obtain ⟨changed,applied,agreed⟩ := tracks.probe _ marker stage positive below
      (fun later after => early later row after) (filled.marked groupId row marker found marked)
    refine ⟨markers.set groupId changed,?_,filled.distinct,members,?_,?_⟩
    · dsimp only
      rw [marked]
      dsimp only
      rw [applied]
      rfl
    · rw [length_set, filled.length]
    · intro otherId other otherMarker otherFound otherMarked
      by_cases same : groupId = otherId
      · subst same
        cases found.symm.trans otherFound
        rw [getElem?_set_self (by rw [filled.length]; exact inside)] at otherMarked
        cases otherMarked
        refine tracks.first _ _ changed ?_ agreed
        simp [alsoSeen]
      · rw [getElem?_set_ne same] at otherMarked
        refine kept other otherMarker ?_ (filled.marked otherId other otherMarker otherFound otherMarked)
        intro equal
        subst equal
        exact same ((getElem?_inj inside filled.distinct).mp (found.trans otherFound.symm))

include tracks in
theorem foldlM_ingestProbeRow (positive : 0 < stage) (below : stage < stageTotal) (rows : List α)
    (filled : Filled agrees seen keys markers) (early : ∀ later row, stage < later → ¬ seen later row) :
    ∃ markers', rows.foldlM (ingestProbeRow semantics stage keys) markers = .ok markers' ∧
      Filled agrees (alsoSeen seen stage rows) keys markers' := by
  induction rows generalizing seen markers with
  | nil => exact ⟨markers,rfl,filled.congr fun input row => by simp [alsoSeen]⟩
  | cons row rows ih =>
    obtain ⟨markers',done,next⟩ := ingestProbeRow_filled tracks positive below filled early row
    obtain ⟨markers'',rest,last⟩ := ih next (alsoSeen_early early [row])
    refine ⟨markers'',?_,last.congr (alsoSeen_cons seen stage row rows)⟩
    rw [foldlM_cons, done]
    exact rest

/-- The table holds what has been seen; without a table nothing of the first input has been. -/
def DistinctSetInner.Holds (agrees : (Nat → Prop) → M → Prop) (seen : Nat → α → Prop)
    (inner : DistinctSetInner α M) : Prop :=
  Filled agrees seen (inner.keyTable.getD []) inner.markers

variable {inner : DistinctSetInner α M}

include tracks in
theorem ingest_holds (below : stage < stageTotal) (holds : inner.Holds agrees seen)
    (early : ∀ later row, stage < later → ¬ seen later row) (chunk : List α) :
    ∃ inner', ingest semantics inner stage chunk = .ok inner' ∧
      inner'.Holds agrees (alsoSeen seen stage chunk) := by
  have same : chunk.isEmpty = true → inner.Holds agrees (alsoSeen seen stage chunk) := by
    intro empty
    rw [isEmpty_iff.mp empty]
    exact holds.congr fun input row => by simp [alsoSeen]
  unfold ingest
  by_cases zero : stage = 0
  · subst zero
    rw [if_pos rfl, ingestBuild]
    by_cases empty : chunk.isEmpty = true
    · exact ⟨inner,if_pos empty,same empty⟩
    · obtain ⟨keys,markers,done,filled⟩ := foldlM_ingestBuildRow tracks chunk holds early
      refine ⟨⟨some keys,markers⟩,?_,filled⟩
      rw [if_neg empty, done]
      rfl
  · rw [if_neg zero, ingestProbe]
    by_cases empty : chunk.isEmpty = true
    · exact ⟨inner,if_pos empty,same empty⟩
    · rw [if_neg empty]
      have positive : 0 < stage := Nat.pos_of_ne_zero zero
      obtain ⟨markers,done,filled⟩ := foldlM_ingestProbeRow tracks positive below chunk holds early
      cases table : inner.keyTable with
      | none =>
        refine ⟨inner,rfl,?_⟩
        -- No row is in the table, so that the chunk changes no marker.
        unfold DistinctSetInner.Holds at holds ⊢
        rw [table] at holds ⊢
        refine ⟨nodup_nil,?_,holds.length,?_⟩
        · intro row
          rw [holds.mem_keys]
          simp [alsoSeen, Ne.symm zero]
        · intro groupId row marker found
          cases found
      | some keys =>
        rw [table] at done filled
        refine ⟨⟨some keys,markers⟩,?_,filled⟩
        change (chunk.foldlM (ingestProbeRow semantics stage keys) inner.markers >>= _) = _
        rw [Option.getD_some] at done
        rw [done]
        rfl

/-! ### What is handed out -/

def rowsAt (keys : List α) (indices : List Nat) : List α :=
  indices.filterMap (keys[·]?)

omit [DecidableEq α] in
theorem selectedGroups_rows {pick : α → Prop} (keys : List α) (markers : List M) :
    ∀ before : List α, markers.length = keys.length → (before ++ keys).length ≤ 2 ^ 32 →
      (∀ (groupId : Nat) row marker, keys[groupId]? = some row → markers[groupId]? = some marker →
        ∃ chosen, semantics.markerSelected marker stageTotal = .ok chosen ∧ (chosen = true ↔ pick row)) →
      ∃ indices, selectedGroups semantics stageTotal before.length markers = .ok indices ∧
        (rowsAt (before ++ keys) indices).Sublist keys ∧
        ∀ row ∈ keys, row ∈ rowsAt (before ++ keys) indices ↔ pick row := by
  induction markers generalizing keys with
  | nil =>
    intro before length _ _
    have none : keys = [] := length_eq_zero_iff.mp length.symm
    subst none
    exact ⟨[],rfl,Sublist.refl [],fun row member => absurd member not_mem_nil⟩
  | cons marker markers ih =>
    intro before length small choice
    cases keys with
    | nil => cases length
    | cons key keys =>
      obtain ⟨chosen,selected,decides⟩ := choice 0 key marker rfl rfl
      have whole : before ++ key :: keys = before ++ [key] ++ keys := by simp
      obtain ⟨rest,done,sub,picks⟩ := ih keys (before ++ [key]) (Nat.succ.inj length) (by rwa [← whole])
        fun groupId row later found marked => choice (groupId + 1) row later found marked
      rw [← whole] at sub picks
      have size : (before ++ [key]).length = before.length + 1 := length_append
      rw [size] at done
      have place : before.length % 2 ^ 32 = before.length := by
        rw [length_append, length_cons] at small
        omega
      have here : (before ++ key :: keys)[before.length]? = some key := by simp
      refine ⟨if chosen then before.length % 2 ^ 32 :: rest else rest,?_,?_,?_⟩
      · rw [selectedGroups, selected]
        rw [done]
        rfl
      · cases chosen with
        | true =>
          rw [if_pos rfl, place, rowsAt, filterMap_cons, here]
          exact Sublist.cons_cons key sub
        | false => exact Sublist.cons key sub
      · intro row member
        have later : row ∈ rowsAt (before ++ key :: keys) rest → pick row :=
          fun listed => (picks row (sub.subset listed)).mp listed
        cases chosen with
        | true =>
          rw [if_pos rfl, place, rowsAt, filterMap_cons, here]
          constructor
          · intro listed
            rcases mem_cons.mp listed with same | listed
            · rw [same]
              exact decides.mp rfl
            · exact later listed
          · intro wanted
            rcases mem_cons.mp member with same | rest
            · rw [same]
              exact mem_cons_self
            · exact mem_cons_of_mem key ((picks row rest).mpr wanted)
        | false =>
          constructor
          · exact later
          · intro wanted
            rcases mem_cons.mp member with same | rest
            · rw [same] at wanted
              exact absurd (decides.mpr wanted) Bool.false_ne_true
            · exact (picks row rest).mpr wanted

include tracks in
omit [DecidableEq α] in
theorem snapshotOutput_holds (holds : inner.Holds agrees seen)
    (small : (inner.keyTable.getD []).length ≤ 2 ^ 32) :
    ∃ output, snapshotOutput semantics inner stageTotal = .ok output ∧ (rowsAt output.1 output.2).Nodup ∧
      ∀ row, row ∈ rowsAt output.1 output.2 ↔ seen 0 row ∧ wanted fun stage => seen stage row := by
  have nothing : inner.keyTable.getD [] = [] → (rowsAt ([] : List α) []).Nodup ∧
      ∀ row, row ∈ rowsAt [] [] ↔ seen 0 row ∧ wanted fun stage => seen stage row := by
    intro empty
    refine ⟨nodup_nil,fun row => iff_of_false not_mem_nil ?_⟩
    rintro ⟨present,-⟩
    have member := (holds.mem_keys row).mpr present
    rw [empty] at member
    exact not_mem_nil member
  unfold snapshotOutput
  cases table : inner.keyTable with
  | none => exact ⟨([], []),rfl,nothing (by rw [table]; rfl)⟩
  | some keys =>
    have same : inner.keyTable.getD [] = keys := by
      rw [table]
      rfl
    by_cases empty : inner.markers.isEmpty = true
    · refine ⟨([], []),if_pos empty,nothing ?_⟩
      have length := holds.length
      rw [isEmpty_iff.mp empty] at length
      exact length_eq_zero_iff.mp length.symm
    · unfold DistinctSetInner.Holds at holds
      rw [same] at holds small
      obtain ⟨indices,done,sub,picks⟩ := @selectedGroups_rows α M semantics stageTotal
        (fun row => wanted fun stage => seen stage row) keys inner.markers [] holds.length small
        fun groupId row marker found marked => tracks.selected _ marker (holds.marked groupId row marker found marked)
      refine ⟨(keys, indices),?_,sub.nodup holds.distinct,?_⟩
      · dsimp only
        rw [length_nil] at done
        rw [if_neg empty, done]
        rfl
      · intro row
        constructor
        · intro listed
          have member := sub.subset listed
          exact ⟨(holds.mem_keys row).mp member,(picks row member).mp listed⟩
        · rintro ⟨present,wants⟩
          exact (picks row ((holds.mem_keys row).mpr present)).mpr wants

end

end NovaRocks.SetOp
