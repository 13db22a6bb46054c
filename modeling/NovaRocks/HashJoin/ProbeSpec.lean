import NovaRocks.HashJoin.ProbeSemi

/-!
What a probe call makes, for every join type but the null-aware one, and the relational
join. The rows of a join split into those made as the probe rows come and those that only
the end of the probe input decides: the unmatched build rows of an outer join, and the
build rows of a right semi or anti join.
-/
namespace NovaRocks.HashJoin
open NovaRocks.Store Relational List

section
variable {α β ν : Type} [DecidableEq ν]

section
variable (node : JoinNode α β ν)

def JoinNode.sqlJoin (left : List α) (right : List β) : List (JoinedRow α β) :=
  let pairs := matched (fun a b => (some a, some b)) node.on left right
  let turned := fun b a => node.on a b
  match node.joinType with
  | .inner => pairs
  | .leftOuter => pairs ++ (lonely node.on left right).map (some ·, none)
  | .rightOuter => pairs ++ (lonely turned right left).map (none, some ·)
  | .fullOuter => pairs ++ (lonely node.on left right).map (some ·, none) ++
      (lonely turned right left).map (none, some ·)
  | .leftSemi => (paired node.on left right).map (some ·, none)
  | .leftAnti => (lonely node.on left right).map (some ·, none)
  | .rightSemi => (paired turned right left).map (none, some ·)
  | .rightAnti => (lonely turned right left).map (none, some ·)
  | .nullAwareLeftAnti => []

def JoinNode.probeRows (left : List α) (right : List β) : List (JoinedRow α β) :=
  match node.joinType with
  | .inner => matched (fun a b => joined (a, b)) node.on left right
  | .leftOuter => node.outerRows left right
  | .rightOuter => node.outerRows left right
  | .fullOuter => node.outerRows left right
  | .leftSemi => node.semiRows true left right
  | .leftAnti => node.semiRows false left right
  | _ => []

def JoinNode.buildRows (left : List α) (right : List β) : List (JoinedRow α β) :=
  match node.joinType with
  | .rightOuter => (lonely (fun b a => node.on a b) right left).map (none, some ·)
  | .fullOuter => (lonely (fun b a => node.on a b) right left).map (none, some ·)
  | .rightSemi => (paired (fun b a => node.on a b) right left).map (none, some ·)
  | .rightAnti => (lonely (fun b a => node.on a b) right left).map (none, some ·)
  | _ => []

theorem probeRows_buildRows (left : List α) (right : List β) :
    node.probeRows left right ++ node.buildRows left right = node.sqlJoin left right := by
  unfold JoinNode.probeRows JoinNode.buildRows JoinNode.sqlJoin JoinNode.outerRows JoinNode.semiRows
  cases kind : node.joinType <;> simp [JoinType.keepsProbe, joined]

end

variable {node : JoinNode α β ν}

theorem paired_append (on : α → β → Bool) (left more : List α) (right : List β) :
    paired on (left ++ more) right = paired on left right ++ paired on more right :=
  filter_append ..

theorem semiRows_append (wanted : Bool) (left more : List α) (right : List β) :
    node.semiRows wanted (left ++ more) right = node.semiRows wanted left right ++
      node.semiRows wanted more right := by
  unfold JoinNode.semiRows
  cases wanted
  · simp [lonely_append]
  · simp [paired_append]

theorem probeRows_append (node : JoinNode α β ν) (left more : List α) (right : List β) :
    (node.probeRows (left ++ more) right).Perm (node.probeRows left right ++ node.probeRows more right) := by
  unfold JoinNode.probeRows
  cases node.joinType with
  | inner => simp only [matched_append]; exact Perm.refl _
  | leftOuter | rightOuter | fullOuter => exact (outerRows_append_perm left more right).symm
  | leftSemi | leftAnti => simp only [semiRows_append]; exact Perm.refl _
  | rightSemi | rightAnti | nullAwareLeftAnti => exact Perm.refl _

theorem probeRows_nil (node : JoinNode α β ν) (right : List β) : node.probeRows ([] : List α) right = [] := by
  unfold JoinNode.probeRows
  cases node.joinType <;> simp [JoinNode.outerRows, JoinNode.semiRows, matched, lonely, paired]

theorem probeRows_filter (left : List α) (applies : node.joinType.appliesFilters = true)
    (dropped : ∀ a, keep a = false → ∀ b ∈ right, node.keysAgree a b = false) :
    node.probeRows (left.filter keep) right = node.probeRows left right := by
  have apart : ∀ a, ∀ b ∈ right, (keep a && node.on a b) = node.on a b := by
    intro a b member
    cases kept : keep a with
    | true => rfl
    | false => rw [on_eq_false (dropped a kept b member)]; rfl
  have sameMatched : matched (fun a b => joined (a, b)) node.on (left.filter keep) right =
      matched (fun a b => joined (a, b)) node.on left right := by
    rw [matched_filter_left]
    apply matched_congr
    · intro a _ b _ _; rfl
    · intro a _ b member
      exact apart a b member
  have samePaired : paired node.on (left.filter keep) right = paired node.on left right := by
    unfold paired
    rw [filter_filter]
    apply filter_congr
    intro a _
    cases partner : hasPartner node.on right a with
    | false => rfl
    | true =>
      obtain ⟨b,member,holds⟩ := (hasPartner_iff _ _ _).mp partner
      have both := apart a b member
      rw [holds, Bool.and_true] at both
      rw [both]
      rfl
  unfold JoinNode.probeRows
  cases kind : node.joinType with
  | inner => exact sameMatched
  | leftSemi => simp only [JoinNode.semiRows, if_true, samePaired]
  | rightSemi => rfl
  | _ => simp [kind, JoinType.appliesFilters] at applies

def Keyed (node : JoinNode α β ν) : Prop :=
  node.joinType = .inner ∨ node.probeKeys ≠ []

def Probed (node : JoinNode α β ν) (core : HashJoinProbeCore β ν) (batches : List (List β))
    (received probe : List α)
    (outcome : Except String (HashJoinProbeCore β ν × Option (List (JoinedRow α β)))) : Prop :=
  ∃ flags out, outcome = .ok ({ core with buildMatched := flags }, out) ∧
    (out.getD []).Perm (node.probeRows probe batches.flatten) ∧
    (node.joinType.tracksBuild = true → flags = some (node.marks batches (received ++ probe)))

def JoinNode.joinFiltered (node : JoinNode α β ν) (core : HashJoinProbeCore β ν) (chunks : List (List α)) :
    Except String (HashJoinProbeCore β ν × Option (List (JoinedRow α β))) :=
  match node.joinType with
  | .inner => (node.joinInner core chunks).map fun out => (core, out)
  | .leftOuter => node.joinOuter core chunks
  | .rightOuter => node.joinOuter core chunks
  | .fullOuter => node.joinOuter core chunks
  | .leftSemi => node.joinSemiAnti core chunks
  | .rightSemi => node.joinSemiAnti core chunks
  | .leftAnti => node.joinSemiAnti core chunks
  | .rightAnti => node.joinSemiAnti core chunks
  | .nullAwareLeftAnti => (node.joinNullAwareLeftAnti core chunks).map fun out => (core, out)

open JoinNode (joinFiltered outerRows probeRows semiRows sqlJoin)

theorem joinFiltered_spec (holds : CoreHolds node core batches) (plain : node.joinType ≠ .nullAwareLeftAnti)
    (keyed : Keyed node) (chunks : List (List α)) (received : List α)
    (marked : node.joinType.tracksBuild = true → core.buildMatched = some (node.marks batches received)) :
    Probed node core batches received chunks.flatten (node.joinFiltered core chunks) := by
  unfold joinFiltered
  cases kind : node.joinType with
  | inner =>
    obtain ⟨out,done,rows⟩ := joinInner_spec holds chunks
    refine ⟨core.buildMatched,out,?_,?_,?_⟩
    · simp only [done]; rfl
    · unfold probeRows; simp only [kind]; exact rows
    · intro tracks; rw [kind] at tracks; cases tracks
  | leftOuter | rightOuter | fullOuter =>
    obtain ⟨flags,out,done,rows,marks⟩ :=
      joinOuter_spec holds (keyed.resolve_left (by simp [kind])) chunks received marked
    exact ⟨flags,out,done,by simpa only [probeRows, kind] using rows,marks⟩
  | leftSemi | leftAnti | rightSemi | rightAnti =>
    obtain ⟨flags,out,done,rows,marks⟩ := joinSemiAnti_spec holds (keyed.resolve_left (by simp [kind]))
      chunks received marked (by simp [kind])
    exact ⟨flags,out,done,by simp [rows, probeRows, kind, JoinType.tracksBuild],marks⟩
  | nullAwareLeftAnti => exact absurd kind plain

theorem joinFiltered_unkeyed (core : HashJoinProbeCore β ν) (plain : node.joinType ≠ .nullAwareLeftAnti)
    (unkeyed : ¬ Keyed node) (chunks : List (List α)) :
    ∃ message, node.joinFiltered core chunks = .error message := by
  obtain ⟨other,none⟩ := not_or.mp unkeyed
  have width : node.probeKeys.isEmpty = true := by simpa using none
  unfold joinFiltered JoinNode.joinOuter JoinNode.joinSemiAnti
  rw [if_pos width, if_pos width]
  cases kind : node.joinType with
  | inner => exact absurd kind other
  | nullAwareLeftAnti => exact absurd kind plain
  | _ => exact ⟨_,rfl⟩

theorem joinProbeChunks_spec (holds : CoreHolds node core batches)
    (plain : node.joinType ≠ .nullAwareLeftAnti) (chunks : List (List α)) (received : List α)
    (marked : node.joinType.tracksBuild = true → core.buildMatched = some (node.marks batches received)) :
    (¬ Keyed node ∧ ∃ message, node.joinProbeChunks core chunks = .error message) ∨
      Probed node core batches received chunks.flatten (node.joinProbeChunks core chunks) := by
  have empty := probeRows_nil node batches.flatten
  have nothing : node.probeRows chunks.flatten batches.flatten = [] →
      node.marks batches (received ++ chunks.flatten) = node.marks batches received →
      Probed node core batches received chunks.flatten (.ok (core, none)) := by
    intro none same
    refine ⟨core.buildMatched,Option.none,rfl,?_,?_⟩
    · rw [none]; exact Perm.refl _
    · intro tracks; rw [same]; exact marked tracks
  unfold JoinNode.joinProbeChunks
  cases chunks with
  | nil => exact .inr (nothing empty (by rw [flatten_nil, append_nil]))
  | cons chunk chunks =>
    obtain ⟨filtered,keep,applied,rows,same,dropped⟩ := applyRuntimeFilters_eq holds (chunk :: chunks)
    have moved : node.probeRows filtered.flatten batches.flatten =
        node.probeRows (chunk :: chunks).flatten batches.flatten := by
      cases applies : node.joinType.appliesFilters with
      | false => rw [same applies]
      | true => rw [rows, probeRows_filter _ applies dropped]
    have flags : node.marks batches (received ++ filtered.flatten) =
        node.marks batches (received ++ (chunk :: chunks).flatten) := by
      rw [rows, marks_filter _ _ _ dropped]
    rw [isEmpty_cons, if_neg Bool.false_ne_true, applied]
    change (_ ∧ ∃ message, (if filtered.isEmpty then .ok (core, none) else node.joinFiltered core filtered) = _) ∨
      Probed _ _ _ _ _ (if filtered.isEmpty then .ok (core, none) else node.joinFiltered core filtered)
    cases none : filtered.isEmpty with
    | true =>
      rw [isEmpty_iff.mp none] at moved flags
      exact .inr (nothing (by rw [← moved]; exact empty)
        (by rw [← flags, flatten_nil, append_nil]))
    | false =>
      by_cases keyed : Keyed node
      · obtain ⟨marks,out,done,made,tracked⟩ :=
          joinFiltered_spec holds plain keyed filtered received marked
        exact .inr ⟨marks,out,done,moved ▸ made,flags ▸ tracked⟩
      · exact .inl ⟨keyed,joinFiltered_unkeyed core plain keyed filtered⟩

/-! ### Build rows by their marks -/

theorem flaggedRows_marks (received : List α) (want : Bool) :
    flaggedRows batches (node.marks batches received) want =
      (.ok ((batches.flatten.filter fun b => (received.any fun a => node.on a b) == want).map
        (none, some ·)) : Except String (List (JoinedRow α β))) := by
  unfold flaggedRows
  rw [if_pos (by simp [JoinNode.marks])]
  congr 2
  induction batches with
  | nil => rfl
  | cons batch batches ih =>
    rw [JoinNode.marks, map_cons, zip_cons_cons, flatMap_cons, flatten_cons, filter_append]
    congr 1
    change keepWhere batch ((batch.map _).map _) = _
    rw [map_map, keepWhere_map]
    apply filter_congr
    intro b _
    cases want <;> cases found : (received.any fun a => node.on a b) <;> simp [found]

end

end NovaRocks.HashJoin
