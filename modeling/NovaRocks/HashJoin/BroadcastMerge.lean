import NovaRocks.HashJoin.Broadcast
import NovaRocks.HashJoin.ProbeSpec

/-!
The merge of the marks of several drivers, and the rows the last of them makes. Marks only
say which build rows have a partner, so the merged marks are the marks of all probe rows the
merging drivers have received.
-/
namespace NovaRocks.HashJoin
open NovaRocks.Store Relational List

theorem mem_matchedPlaces (flags : List (List Bool)) (i j : Nat) :
    (i, j) ∈ matchedPlaces flags ↔ flagAt flags i j = some true := by
  unfold matchedPlaces flagAt
  rw [mem_flatMap]
  constructor
  · rintro ⟨⟨batchFlags,batch⟩,listed,member⟩
    obtain ⟨⟨flag,row⟩,kept,same⟩ := mem_map.mp member
    obtain ⟨inside,set⟩ := mem_filter.mp kept
    cases same
    rw [mem_zipIdx_iff_getElem?] at listed inside
    rw [listed, Option.bind_some, inside, set]
  · intro set
    obtain ⟨batchFlags,listed,inside⟩ := Option.bind_eq_some_iff.mp set
    refine ⟨(batchFlags, i),mem_zipIdx_iff_getElem?.mpr listed,?_⟩
    apply mem_map.mpr
    exact ⟨(true, j),mem_filter.mpr ⟨mem_zipIdx_iff_getElem?.mpr inside,rfl⟩,rfl⟩

section
variable {α β ν : Type} [DecidableEq ν] {node : JoinNode α β ν} {batches : List (List β)}

theorem orFlags_marks (received probe : List α) :
    orFlags (node.marks batches received) (node.marks batches probe) =
      node.marks batches (received ++ probe) := by
  have covers : ∀ i j b, ((batches[i]?).bind fun batch => batch[j]?) = some b →
      ((∃ place ∈ matchedPlaces (node.marks batches probe), id place = (i, j)) ↔
        ∃ a ∈ probe, node.on a b = true) := by
    intro i j b found
    have here : (∃ place ∈ matchedPlaces (node.marks batches probe), id place = (i, j)) ↔
        (i, j) ∈ matchedPlaces (node.marks batches probe) := by simp
    rw [here, mem_matchedPlaces, flagAt_marks, found]
    simp
  exact marks_append covers

theorem marks_congr (same : ∀ a, a ∈ received ↔ a ∈ other) :
    node.marks batches received = node.marks batches other := by
  apply map_congr_left
  intro batch _
  apply map_congr_left
  intro b _
  rw [Bool.eq_iff_iff, any_eq_true, any_eq_true]
  simp only [same]

theorem buildRows_congr (right : List β) (same : ∀ a, a ∈ left ↔ a ∈ other) :
    node.buildRows left right = node.buildRows other right := by
  have partner : hasPartner (fun b a => node.on a b) left = hasPartner (fun b a => node.on a b) other := by
    funext b
    rw [Bool.eq_iff_iff, hasPartner_iff, hasPartner_iff]
    simp only [same]
  unfold JoinNode.buildRows lonely paired
  rw [partner]

theorem probeRows_perm (right : List β) (same : left.Perm other) :
    (node.probeRows left right).Perm (node.probeRows other right) := by
  have pairs : (matched (fun a b => joined (a, b)) node.on left right).Perm
      (matched (fun a b => joined (a, b)) node.on other right) := Perm.flatMap_right _ same
  have outer : (node.outerRows left right).Perm (node.outerRows other right) := by
    apply Perm.append pairs
    split
    case isTrue => exact (same.filter _).map _
    case isFalse => exact Perm.refl _
  have semi : ∀ wanted, (node.semiRows wanted left right).Perm (node.semiRows wanted other right) := by
    intro wanted
    cases wanted with
    | true | false => exact (same.filter _).map _
  unfold JoinNode.probeRows
  cases node.joinType with
  | inner => exact pairs
  | leftOuter | rightOuter | fullOuter => exact outer
  | leftSemi => exact semi true
  | leftAnti => exact semi false
  | rightSemi | rightAnti | nullAwareLeftAnti => exact Perm.refl _

structure MergeHolds (node : JoinNode α β ν) (batches : List (List β)) (n : Nat)
    (state : BroadcastJoinSharedState β ν) (count : Nat) (others : List α) : Prop where
  total : state.totalProbeDrivers = n
  unmerged : state.buildMatchMerge = none → count = 0 ∧ others = []
  merged : ∀ merge, state.buildMatchMerge = some merge → merge.totalDrivers = n ∧
    merge.driversMerged = count ∧ (count < n → merge.merged = node.marks batches others)

variable {n count : Nat}

theorem mergeBuildMatched_spec (holds : MergeHolds node batches n state count others) (more : count < n)
    (received : List α) :
    MergeHolds node batches n (state.mergeBuildMatched (node.marks batches received)).1 (count + 1)
        (others ++ received) ∧
      (state.mergeBuildMatched (node.marks batches received)).1.build = state.build ∧
      (state.mergeBuildMatched (node.marks batches received)).2 =
        if count + 1 = n then some (node.marks batches (others ++ received)) else none := by
  have current : ∃ merge, state.buildMatchMerge.getD
        ⟨(node.marks batches received).map fun batch => replicate batch.length false,0,
          state.totalProbeDrivers⟩ = merge ∧ merge.totalDrivers = n ∧ merge.driversMerged = count ∧
      merge.merged = node.marks batches others := by
    cases given : state.buildMatchMerge with
    | none =>
      obtain ⟨zero,nothing⟩ := holds.unmerged given
      refine ⟨_,rfl,holds.total,zero.symm,?_⟩
      subst nothing
      simp [JoinNode.marks]
    | some merge =>
      obtain ⟨total,number,flags⟩ := holds.merged merge given
      exact ⟨merge,rfl,total,number,flags more⟩
  obtain ⟨merge,same,total,number,flags⟩ := current
  unfold BroadcastJoinSharedState.mergeBuildMatched
  simp only [same, flags, orFlags_marks, total, number]
  split <;> refine ⟨⟨holds.total,fun no => absurd no (Option.some_ne_none _),?_⟩,rfl,rfl⟩ <;>
    rintro merge ⟨⟩
  · exact ⟨rfl,rfl,fun less => by omega⟩
  · exact ⟨rfl,rfl,fun _ => rfl⟩

theorem buildRows_untracked (left : List α) (right : List β) (untracked : node.joinType.tracksBuild = false) :
    node.buildRows left right = [] := by
  unfold JoinNode.buildRows
  cases kind : node.joinType with
  | rightOuter | fullOuter | rightSemi | rightAnti => rw [kind] at untracked; cases untracked
  | _ => rfl

theorem flagged_lonely (received : List α) :
    (flaggedRows batches (node.marks batches received) false : Except String (List (JoinedRow α β))) =
      .ok ((lonely (fun b a => node.on a b) batches.flatten received).map (none, some ·)) := by
  rw [flaggedRows_marks]
  simp [lonely, hasPartner]

theorem flagged_paired (received : List α) :
    (flaggedRows batches (node.marks batches received) true : Except String (List (JoinedRow α β))) =
      .ok ((paired (fun b a => node.on a b) batches.flatten received).map (none, some ·)) := by
  rw [flaggedRows_marks]
  unfold paired hasPartner
  simp

omit [DecidableEq ν] in
theorem getD_mergeJoinOutputs (left right : Option (List (JoinedRow α β))) :
    (mergeJoinOutputs left right).getD [] = left.getD [] ++ right.getD [] := by
  cases left <;> cases right <;> simp [mergeJoinOutputs]

theorem finishMerged_last (kept : core.buildBatches = batches) (tracks : node.joinType.tracksBuild = true)
    (received : List α) (out : Option (List (JoinedRow α β))) (nothing : out.getD [] = [])
    (last : (state.mergeBuildMatched (core.buildMatched.getD [])).2 = some (node.marks batches received)) :
    ∃ rows, node.finishMerged state core out =
        .ok ((state.mergeBuildMatched (core.buildMatched.getD [])).1, rows) ∧
      rows.getD [] = node.buildRows received batches.flatten := by
  unfold JoinNode.finishMerged JoinNode.buildRows
  cases kind : node.joinType with
  | rightOuter | fullOuter =>
    simp only [last, HashJoinProbeCore.buildFullOuterUnmatched, kept, flagged_lonely]
    exact ⟨_,rfl,by rw [getD_mergeJoinOutputs, nothing, getD_emit]; rfl⟩
  | rightSemi =>
    simp only [last, HashJoinProbeCore.buildRightSemiAntiOutput, kept, flagged_paired]
    exact ⟨_,rfl,by rw [getD_mergeJoinOutputs, getD_emit]; rfl⟩
  | rightAnti =>
    simp only [last, HashJoinProbeCore.buildRightSemiAntiOutput, kept, flagged_lonely]
    exact ⟨_,rfl,by rw [getD_mergeJoinOutputs, getD_emit]; rfl⟩
  | _ => rw [kind] at tracks; cases tracks

omit [DecidableEq ν] in
theorem finishMerged_before (tracks : node.joinType.tracksBuild = true)
    (out : Option (List (JoinedRow α β))) (nothing : out.getD [] = [])
    (before : (state.mergeBuildMatched (core.buildMatched.getD [])).2 = none) :
    ∃ rows, node.finishMerged state core out =
        .ok ((state.mergeBuildMatched (core.buildMatched.getD [])).1, rows) ∧ rows.getD [] = [] := by
  unfold JoinNode.finishMerged
  cases kind : node.joinType with
  | rightOuter | fullOuter => exact ⟨out,by simp only [before],nothing⟩
  | rightSemi | rightAnti => exact ⟨none,by simp only [before],rfl⟩
  | _ => rw [kind] at tracks; cases tracks

theorem finishMerged_spec (kept : core.buildBatches = batches) (more : count < n) (received : List α)
    (holds : node.joinType.tracksBuild = true → MergeHolds node batches n state count others)
    (marked : node.joinType.tracksBuild = true → core.buildMatched = some (node.marks batches received))
    (out : Option (List (JoinedRow α β))) (nothing : out.getD [] = []) :
    ∃ next rows, node.finishMerged state core out = .ok (next, rows) ∧ next.build = state.build ∧
      (node.joinType.tracksBuild = true → MergeHolds node batches n next (count + 1) (others ++ received)) ∧
      rows.getD [] = if count + 1 = n then node.buildRows (others ++ received) batches.flatten else [] := by
  cases tracks : node.joinType.tracksBuild with
  | false =>
    refine ⟨state,out,?_,rfl,nofun,?_⟩
    · unfold JoinNode.finishMerged
      cases kind : node.joinType with
      | rightOuter | fullOuter | rightSemi | rightAnti => rw [kind] at tracks; cases tracks
      | _ => rfl
    · rw [buildRows_untracked _ _ tracks, nothing, ite_self]
  | true =>
    obtain ⟨grown,build,last⟩ := mergeBuildMatched_spec (holds tracks) more received
    have own : core.buildMatched.getD [] = node.marks batches received := by
      rw [marked tracks]
      rfl
    rw [← own] at grown build last
    by_cases final : count + 1 = n
    · rw [if_pos final] at last ⊢
      obtain ⟨rows,done,made⟩ := finishMerged_last kept tracks _ out nothing last
      exact ⟨_,rows,done,build,fun _ => grown,made⟩
    · rw [if_neg final] at last ⊢
      obtain ⟨rows,done,made⟩ := finishMerged_before tracks out nothing last
      exact ⟨_,rows,done,build,fun _ => grown,made⟩

end

end NovaRocks.HashJoin
