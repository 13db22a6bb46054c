import Mathlib.Data.List.Flatten
import NovaRocks.HashJoin.BroadcastMerge

/-!
Every run of a broadcast join. What a driver has emitted and still holds are the rows its
probe rows make, its marks are theirs, and the merge holds the marks of the drivers that have
finished. So, whatever the order of the calls, the rows emitted when all drivers have finished
are those of the relational join of all probe rows with the build rows.
-/
namespace NovaRocks.HashJoin
open NovaRocks.Store Relational List
open BroadcastJoinProbeProcessor (hasOutput needInput setFinishing)
open Function (apply_update₂ update update_eq_self update_of_ne update_self)

section
variable {α β ν : Type} [DecidableEq ν] {node : JoinNode α β ν} {batches : List (List β)}
  {artifact : JoinBuildArtifact β ν}

structure DriverHolds (node : JoinNode α β ν) (batches : List (List β))
    (driver : BroadcastJoinProbeProcessor α β ν) (received : List α) : Prop where
  buffered : driver.buffered = []
  fresh : driver.core.buildLoaded = false → received = []
  loaded : driver.core.buildLoaded = true → CoreHolds node driver.core batches
  marked : driver.core.buildLoaded = true → node.joinType.tracksBuild = true → driver.finished = false →
    driver.core.buildMatched = some (node.marks batches received)
  done : driver.finishingDone = driver.finished
  handed : driver.finished = true → driver.pendingOutput = none

variable {driver : BroadcastJoinProbeProcessor α β ν} {received : List α}
  {state : BroadcastJoinSharedState β ν}

theorem create_holds (node : JoinNode α β ν) (batches : List (List β)) :
    DriverHolds node batches .create ([] : List α) :=
  ⟨rfl,fun _ => rfl,nofun,nofun,rfl,nofun⟩

variable (artifactHolds : ArtifactHolds node artifact batches)

include artifactHolds in
theorem loadBuildSide_spec
    (holds : DriverHolds node batches driver received) (unfinished : driver.finished = false)
    (built : state.build = none ∨ state.build = some artifact)
    (ready : (driver.core.buildLoaded || state.build.isSome) = true) :
    ∃ core, node.loadBuildSide state driver = .ok { driver with core := core } ∧
      CoreHolds node core batches ∧
      (node.joinType.tracksBuild = true → core.buildMatched = some (node.marks batches received)) := by
  unfold JoinNode.loadBuildSide
  cases loaded : driver.core.buildLoaded with
  | true =>
    exact ⟨driver.core,rfl,holds.loaded loaded,fun tracks => holds.marked loaded tracks unfinished⟩
  | false =>
    rw [loaded, Bool.false_or] at ready
    have given : state.build = some artifact := by
      rcases built with none | some
      · rw [none] at ready
        cases ready
      · exact some
    simp only [given]
    refine ⟨_,rfl,setBuildArtifact_holds artifactHolds loaded _ _,?_⟩
    intro tracks
    unfold JoinNode.setBuildArtifact
    rw [loaded, tracks, holds.fresh loaded, marks_nil, artifactHolds.kept]
    rfl

theorem collect_chunk (chunk : List α) : (collectProbeChunks [] (some chunk)).flatten = chunk := by
  cases chunk <;> simp [collectProbeChunks]

variable (plain : node.joinType ≠ .nullAwareLeftAnti)

include artifactHolds plain in
theorem push_spec (holds : DriverHolds node batches driver received)
    (built : state.build = none ∨ state.build = some artifact) (needs : driver.needInput state = true)
    (chunk : List α) :
    (¬ Keyed node ∧ ∃ message, node.pushChunk state driver chunk = .error message) ∨
    ∃ next, node.pushChunk state driver chunk = .ok next ∧
      DriverHolds node batches next (received ++ chunk) ∧
      driver.pendingOutput = none ∧ driver.finished = false ∧ next.finished = false ∧
      (next.pendingOutput.getD []).Perm (node.probeRows chunk batches.flatten) := by
  unfold needInput at needs
  split at needs
  case isTrue => cases needs
  case isFalse idle =>
    simp only [Bool.or_eq_true, not_or, Bool.not_eq_true] at idle
    obtain ⟨⟨going,unfinished⟩,free⟩ := idle
    obtain ⟨core,loaded,coreHolds,marked⟩ :=
      loadBuildSide_spec artifactHolds holds unfinished built needs
    have called : node.pushChunk state driver chunk =
        (node.joinProbeChunks core (collectProbeChunks [] (some chunk)) >>= fun joined =>
          .ok { driver with buffered := [], core := joined.1, pendingOutput := joined.2 }) := by
      unfold JoinNode.pushChunk
      rw [if_neg (by simp [unfinished]), if_neg (by simp [going]), if_neg (by simp [free]), loaded,
        holds.buffered]
      rfl
    rw [called]
    rcases joinProbeChunks_spec coreHolds plain (collectProbeChunks [] (some chunk)) received marked with
      ⟨unkeyed,message,refused⟩ | ⟨flags,out,joined,rows,marks⟩
    · exact .inl ⟨unkeyed,message,by rw [refused]; rfl⟩
    rw [collect_chunk] at rows marks
    right
    refine ⟨{ driver with buffered := [], core := { core with buildMatched := flags }, pendingOutput := out },
      by rw [joined]; rfl,?_,by simpa using free,unfinished,unfinished,rows⟩
    refine ⟨rfl,?_,?_,?_,holds.done,?_⟩
    · intro fresh
      cases coreHolds.loaded.symm.trans fresh
    · exact fun _ => { coreHolds with }
    · exact fun _ tracks _ => marks tracks
    · intro finished
      cases unfinished.symm.trans finished

include artifactHolds in
theorem pull_end (holds : DriverHolds node batches driver received)
    (built : state.build = none ∨ state.build = some artifact) (has : driver.hasOutput state = true)
    (free : driver.pendingOutput = none) {n count : Nat} (more : count < n)
    (merge : node.joinType.tracksBuild = true → MergeHolds node batches n state count others) :
    ∃ nextState next out, node.pullChunk state driver = .ok ((nextState, next), out) ∧
      nextState.build = state.build ∧ DriverHolds node batches next received ∧
      driver.finished = false ∧ next.finished = true ∧
      (node.joinType.tracksBuild = true →
        MergeHolds node batches n nextState (count + 1) (others ++ received)) ∧
      out.getD [] = if count + 1 = n then node.buildRows (others ++ received) batches.flatten else [] := by
  unfold hasOutput at has
  rw [free, Option.isSome_none, if_neg Bool.false_ne_true, Bool.and_eq_true, Bool.and_eq_true,
    Bool.not_eq_true'] at has
  obtain ⟨⟨ending,notDone⟩,ready⟩ := has
  have unfinished : driver.finished = false := by rw [← holds.done, notDone]
  obtain ⟨core,loaded,coreHolds,marked⟩ := loadBuildSide_spec artifactHolds holds unfinished built ready
  have drained : node.joinProbeChunks core (collectProbeChunks driver.buffered (none : Option (List α))) =
      .ok (core, none) := by
    rw [holds.buffered]
    rfl
  obtain ⟨nextState,rows,ended,build,grown,made⟩ :=
    finishMerged_spec coreHolds.kept more received merge marked none rfl
  refine ⟨nextState,{ driver with
      buffered := []
      core := node.takeBuildMatched core
      pendingOutput := none
      finishingDone := true
      finished := true },rows,?_,build,?_,unfinished,rfl,grown,made⟩
  · unfold JoinNode.pullChunk JoinNode.finishIfEnded JoinNode.finishOne
    rw [if_pos (by simp [free, ending, notDone]), loaded]
    change ((node.joinProbeChunks core (collectProbeChunks driver.buffered none) >>= fun joined => _) >>=
      fun ended => _) = _
    rw [drained]
    change ((node.finishMerged state core none >>= fun ended => _) >>= fun ended => _) = _
    rw [ended]
    simp only [ending, unfinished]
    rfl
  · have same : CoreHolds node (node.takeBuildMatched core) batches := by
      unfold JoinNode.takeBuildMatched
      split
      case isTrue => exact { coreHolds with }
      case isFalse => exact coreHolds
    refine ⟨rfl,?_,fun _ => same,nofun,rfl,fun _ => rfl⟩
    intro fresh
    cases same.loaded.symm.trans fresh

variable {rows : List (JoinedRow α β)}

theorem pull_pending (state : BroadcastJoinSharedState β ν) (holds : DriverHolds node batches driver received)
    (pending : driver.pendingOutput = some rows) :
    ∃ next, node.pullChunk state driver = .ok ((state, next), some rows) ∧
      DriverHolds node batches next received ∧ next.pendingOutput = none ∧
      driver.finished = false ∧ next.finished = false := by
  have unfinished : driver.finished = false := by
    cases finished : driver.finished with
    | false => rfl
    | true =>
      rw [holds.handed finished] at pending
      cases pending
  have notDone : driver.finishingDone = false := by rw [holds.done, unfinished]
  refine ⟨{ driver with pendingOutput := none, finished := false },?_,?_,rfl,unfinished,rfl⟩
  · unfold JoinNode.pullChunk JoinNode.finishIfEnded
    rw [if_neg (by simp [pending])]
    change Except.ok ((state, { driver with
      pendingOutput := none
      finished := driver.finished || (driver.finishing && driver.finishingDone) }), driver.pendingOutput) = _
    simp [unfinished, notDone, pending]
  · exact { holds with
      marked := fun loaded tracks _ => holds.marked loaded tracks unfinished, done := notDone, handed := nofun }

theorem setFinishing_holds (holds : DriverHolds node batches driver received) :
    DriverHolds node batches driver.setFinishing received ∧ driver.setFinishing.finished = driver.finished ∧
      driver.setFinishing.pendingOutput = driver.pendingOutput := by
  unfold setFinishing
  split
  case isTrue finished => exact ⟨holds,rfl,rfl⟩
  case isFalse => exact ⟨{ holds with },rfl,rfl⟩

/-! ### All drivers -/

variable {n : Nat}

section
variable (system : BroadcastJoin n α β ν)

def BroadcastJoin.ended (party : Fin n) : Bool :=
  (system.drivers party).finished

def BroadcastJoin.made (party : Fin n) : List (JoinedRow α β) :=
  system.emitted party ++ (system.drivers party).pendingOutput.getD []

def BroadcastJoin.merged (party : Fin n) : List α :=
  if system.ended party then system.received party else []

end

structure SystemHolds (node : JoinNode α β ν) (artifact : JoinBuildArtifact β ν) (batches : List (List β))
    (system : BroadcastJoin n α β ν) : Prop where
  built : system.shared.build = none ∨ system.shared.build = some artifact
  each : ∀ party, DriverHolds node batches (system.drivers party) (system.received party)
  merge : node.joinType.tracksBuild = true →
    MergeHolds node batches n system.shared (counted system.ended) (gathered system.merged)
  rows : (gathered system.made).Perm (node.probeRows (gathered system.received) batches.flatten ++
    if counted system.ended = n then node.buildRows (gathered system.received) batches.flatten else [])

theorem start_holds (node : JoinNode α β ν) (artifact : JoinBuildArtifact β ν) (batches : List (List β))
    (some : 0 < n) : SystemHolds node artifact batches (BroadcastJoin.start n) := by
  have noneEnded : counted (BroadcastJoin.start n : BroadcastJoin n α β ν).ended = 0 :=
    counted_eq_zero.mpr fun _ => rfl
  have nothing : ∀ γ : Type, gathered (fun _ : Fin n => ([] : List γ)) = [] := by
    simp [gathered]
  refine ⟨.inl rfl,fun _ => create_holds node batches,?_,?_⟩
  · intro _
    rw [noneEnded]
    refine ⟨rfl,fun _ => ⟨rfl,nothing α⟩,nofun⟩
  · rw [noneEnded, if_neg (by omega), append_nil]
    change (gathered fun _ => []).Perm (node.probeRows (gathered fun _ => []) batches.flatten)
    rw [nothing, nothing, probeRows_nil]

variable {system next : BroadcastJoin n α β ν}

omit [DecidableEq ν] in
theorem counted_ended_ne (unfinished : (system.drivers party).finished = false) :
    counted system.ended ≠ n := by
  intro all
  have finished := counted_eq_all.mp all party
  rw [BroadcastJoin.ended, unfinished] at finished
  cases finished

def BroadcastJoin.replace (system : BroadcastJoin n α β ν) (shared : BroadcastJoinSharedState β ν)
    (party : Fin n) (driver : BroadcastJoinProbeProcessor α β ν) (received : List α)
    (emitted : List (JoinedRow α β)) : BroadcastJoin n α β ν :=
  ⟨shared, update system.drivers party driver, update system.received party received,
    update system.emitted party emitted⟩

omit [DecidableEq ν] in
theorem ended_replace : (system.replace shared party driver received emitted).ended =
    update system.ended party driver.finished := by
  funext other
  exact Function.apply_update (fun _ driver => driver.finished) system.drivers party driver other

omit [DecidableEq ν] in
theorem made_replace : (system.replace shared party driver received emitted).made =
    update system.made party (emitted ++ driver.pendingOutput.getD []) := by
  funext other
  exact apply_update₂ (fun _ emitted driver => emitted ++ driver.pendingOutput.getD [])
    system.emitted system.drivers party emitted driver other

omit [DecidableEq ν] in
theorem merged_replace : (system.replace shared party driver received emitted).merged =
    update system.merged party (if driver.finished then received else []) := by
  funext other
  exact apply_update₂ (fun _ driver received => if driver.finished then received else [])
    system.drivers system.received party driver received other

theorem replace_holds (holds : SystemHolds node artifact batches system)
    (built : shared.build = none ∨ shared.build = some artifact)
    (driverHolds : DriverHolds node batches driver received)
    (merge : node.joinType.tracksBuild = true → MergeHolds node batches n shared
      (counted (update system.ended party driver.finished))
      (gathered (update system.merged party (if driver.finished then received else []))))
    (rows : (gathered (update system.made party (emitted ++ driver.pendingOutput.getD []))).Perm
      (node.probeRows (gathered (update system.received party received)) batches.flatten ++
        if counted (update system.ended party driver.finished) = n then
          node.buildRows (gathered (update system.received party received)) batches.flatten
        else [])) :
    SystemHolds node artifact batches (system.replace shared party driver received emitted) := by
  refine ⟨built,?_,?_,?_⟩
  · intro other
    change DriverHolds node batches (update system.drivers party driver other)
      (update system.received party received other)
    by_cases same : other = party
    · subst same
      rw [update_self, update_self]
      exact driverHolds
    · rw [update_of_ne same, update_of_ne same]
      exact holds.each other
  · rw [ended_replace, merged_replace]
    exact merge
  · rw [made_replace, ended_replace]
    exact rows

variable (holds : SystemHolds node artifact batches system)

include artifactHolds plain holds in
theorem push_holds (chunk : List α) (permitted : system.permits (.push party chunk) = true) :
    (¬ Keyed node ∧ ∃ message, node.perform artifact system (.push party chunk) = .error message) ∨
    ∃ next, node.perform artifact system (.push party chunk) = .ok next ∧
      SystemHolds node artifact batches next := by
  rcases push_spec artifactHolds plain (holds.each party) holds.built permitted chunk with
    ⟨unkeyed,message,refused⟩ | ⟨pushed,done,driverHolds,free,unfinished,still,rows⟩
  · refine .inl ⟨unkeyed,message,?_⟩
    change (node.pushChunk system.shared (system.drivers party) chunk >>= fun pushed => _) = _
    rw [refused]
    rfl
  right
  have going : system.ended party = false := unfinished
  refine ⟨system.replace system.shared party pushed (system.received party ++ chunk) (system.emitted party),
    ?_,replace_holds holds holds.built driverHolds ?_ ?_⟩
  · change (node.pushChunk system.shared (system.drivers party) chunk >>= fun pushed => _) = _
    rw [done, BroadcastJoin.replace, update_eq_self]
    rfl
  · have nothing : system.merged party = [] := by simp [BroadcastJoin.merged, going]
    rw [still, ← going, update_eq_self, going, if_neg Bool.false_ne_true, ← nothing, update_eq_self]
    exact holds.merge
  · have before := holds.rows
    rw [if_neg (counted_ended_ne unfinished), append_nil] at before
    rw [still, ← going, update_eq_self, if_neg (counted_ended_ne unfinished), append_nil]
    calc (gathered (update system.made party
            (system.emitted party ++ pushed.pendingOutput.getD []))).Perm
          (gathered system.made ++ pushed.pendingOutput.getD []) := by
          apply gathered_update
          rw [BroadcastJoin.made, free]
          simp
      Perm _ (node.probeRows (gathered system.received) batches.flatten ++
          node.probeRows chunk batches.flatten) := before.append rows
      Perm _ (node.probeRows (gathered system.received ++ chunk) batches.flatten) :=
          (probeRows_append node _ chunk _).symm
      Perm _ (node.probeRows (gathered (update system.received party
          (system.received party ++ chunk))) batches.flatten) :=
          probeRows_perm _ (gathered_update (Perm.refl _)).symm

include holds in
theorem pull_pending_holds (pending : (system.drivers party).pendingOutput = some rows) :
    ∃ next, node.perform artifact system (.pull party) = .ok next ∧
      SystemHolds node artifact batches next := by
  obtain ⟨pulled,done,driverHolds,free,unfinished,still⟩ :=
    pull_pending system.shared (holds.each party) pending
  have going : system.ended party = false := unfinished
  refine ⟨system.replace system.shared party pulled (system.received party) (system.emitted party ++ rows),
    ?_,replace_holds holds holds.built driverHolds ?_ ?_⟩
  · change (node.pullChunk system.shared (system.drivers party) >>= fun pulled => _) = _
    rw [done, BroadcastJoin.replace, update_eq_self]
    rfl
  · have nothing : system.merged party = [] := by simp [BroadcastJoin.merged, going]
    rw [still, ← going, update_eq_self, going, if_neg Bool.false_ne_true, ← nothing, update_eq_self]
    exact holds.merge
  · have kept : system.emitted party ++ rows ++ pulled.pendingOutput.getD [] = system.made party := by
      rw [BroadcastJoin.made, pending, free]
      simp
    rw [kept, still, ← going, update_eq_self, update_eq_self, update_eq_self]
    exact holds.rows

theorem MergeHolds.perm {count : Nat}
    (holds : MergeHolds node batches n state count others) (same : others.Perm more) :
    MergeHolds node batches n state count more := by
  refine ⟨holds.total,?_,?_⟩
  · intro unmerged
    obtain ⟨zero,nothing⟩ := holds.unmerged unmerged
    subst nothing
    exact ⟨zero,same.nil_eq.symm⟩
  · intro merge found
    obtain ⟨total,number,flags⟩ := holds.merged merge found
    refine ⟨total,number,fun less => ?_⟩
    rw [flags less]
    exact marks_congr fun a => same.mem_iff

include artifactHolds holds in
theorem pull_end_holds (permitted : system.permits (.pull party) = true)
    (free : (system.drivers party).pendingOutput = none) :
    ∃ next, node.perform artifact system (.pull party) = .ok next ∧
      SystemHolds node artifact batches next := by
  have has : (system.drivers party).hasOutput system.shared = true := permitted
  have unfinished : (system.drivers party).finished = false := by
    unfold hasOutput at has
    simp only [free, Option.isSome_none, Bool.false_eq_true, if_false, Bool.and_eq_true,
      Bool.not_eq_true'] at has
    rw [← (holds.each party).done, has.1.2]
  have more : counted system.ended < n := by
    have bound := counted_le system.ended
    have different := counted_ended_ne unfinished
    omega
  obtain ⟨shared,pulled,out,done,build,driverHolds,-,finished,merge,rows⟩ :=
    pull_end artifactHolds (holds.each party) holds.built has free more holds.merge
  have nothing : system.merged party = [] := by simp [BroadcastJoin.merged, BroadcastJoin.ended, unfinished]
  have grown : (gathered (update system.merged party (system.received party))).Perm
      (gathered system.merged ++ system.received party) := by
    apply gathered_update
    rw [nothing, nil_append]
  have count : counted (update system.ended party true) = counted system.ended + 1 :=
    counted_update unfinished
  refine ⟨system.replace shared party pulled (system.received party) (system.emitted party ++ out.getD []),
    ?_,replace_holds holds (by rw [build]; exact holds.built) driverHolds ?_ ?_⟩
  · change (node.pullChunk system.shared (system.drivers party) >>= fun pulled => _) = _
    rw [done, BroadcastJoin.replace, update_eq_self]
    rfl
  · intro tracks
    rw [finished, if_pos rfl, count]
    exact (merge tracks).perm grown.symm
  · have before := holds.rows
    rw [if_neg (counted_ended_ne unfinished), append_nil] at before
    have handed := driverHolds.handed finished
    have added : (gathered (update system.made party
        (system.emitted party ++ out.getD [] ++ pulled.pendingOutput.getD []))).Perm
        (gathered system.made ++ out.getD []) := by
      apply gathered_update
      rw [handed, BroadcastJoin.made, free]
      simp
    rw [finished, count, update_eq_self]
    refine added.trans (before.append ?_)
    rw [rows]
    by_cases final : counted system.ended + 1 = n
    · rw [if_pos final, if_pos final]
      -- now every driver has finished, so the merged rows are all the received ones
      have all : update system.merged party (system.received party) = system.received := by
        funext other
        by_cases same : other = party
        · subst same
          rw [update_self]
        · have ended := counted_eq_all.mp (count.trans final) other
          rw [update_of_ne same] at ended ⊢
          rw [BroadcastJoin.merged, ended, if_pos rfl]
      rw [all] at grown
      rw [buildRows_congr batches.flatten fun a => grown.symm.mem_iff]
    · rw [if_neg final, if_neg final]

include holds in
theorem finish_holds (party : Fin n) :
    SystemHolds node artifact batches
      { system with drivers := update system.drivers party (system.drivers party).setFinishing } := by
  obtain ⟨driverHolds,finished,pending⟩ := setFinishing_holds (holds.each party)
  have whole : (⟨system.shared,update system.drivers party (system.drivers party).setFinishing,
      system.received,system.emitted⟩ : BroadcastJoin n α β ν) =
      system.replace system.shared party (system.drivers party).setFinishing (system.received party)
        (system.emitted party) := by
    rw [BroadcastJoin.replace, update_eq_self, update_eq_self]
  have ended : (system.drivers party).setFinishing.finished = system.ended party := finished
  have made : system.emitted party ++ (system.drivers party).setFinishing.pendingOutput.getD [] =
      system.made party := by rw [pending]; rfl
  rw [whole]
  apply replace_holds holds holds.built driverHolds
  · have merged : (if system.ended party then system.received party else []) = system.merged party := rfl
    rw [ended, update_eq_self, merged, update_eq_self]
    exact holds.merge
  · rw [made, ended, update_eq_self, update_eq_self, update_eq_self]
    exact holds.rows

include artifactHolds plain holds in
theorem perform_holds (call : BroadcastCall n α) (permitted : system.permits call = true) :
    (¬ Keyed node ∧ ∃ message, node.perform artifact system call = .error message) ∨
    ∃ next, node.perform artifact system call = .ok next ∧ SystemHolds node artifact batches next := by
  cases call with
  | setBuild =>
    have unset : system.shared.build.isSome = false := by
      have none : system.shared.build.isNone = true := permitted
      rw [← Option.not_isNone, none]
      rfl
    refine .inr ⟨{ system with shared := { system.shared with build := some artifact } },?_,?_⟩
    · unfold JoinNode.perform BroadcastJoinSharedState.setBuild
      simp only [unset]
      rfl
    · exact { holds with built := .inr rfl, merge := fun tracks => { holds.merge tracks with } }
  | push party chunk => exact push_holds artifactHolds plain holds chunk permitted
  | pull party =>
    right
    cases pending : (system.drivers party).pendingOutput with
    | none => exact pull_end_holds artifactHolds holds permitted pending
    | some rows => exact pull_pending_holds holds pending
  | finish party => exact .inr ⟨_,rfl,finish_holds holds party⟩

include artifactHolds plain in
theorem reached_holds (some : 0 < n) (reached : Reached node artifact n system) :
    SystemHolds node artifact batches system := by
  induction reached with
  | start => exact start_holds node artifact batches some
  | call reached call permitted done ih =>
    rcases perform_holds artifactHolds plain ih call permitted with
      ⟨-,message,refused⟩ | ⟨next,performed,holds⟩
    · cases refused.symm.trans done
    · cases performed.symm.trans done
      exact holds

/-- The relational join, whatever the order of the calls. The build side is built from its
chunks as long as its rows can be numbered. Then, for any number of drivers and in any run,
no permitted call of a join with the key it needs fails, a driver whose input has ended can be
pulled until it has finished, and when all have finished the rows they emitted are, up to
order, those of the join of the probe rows with the build rows. -/
theorem broadcast_join_correct (node : JoinNode α β ν) (plain : node.joinType ≠ .nullAwareLeftAnti)
    (chunks : List (List β)) :
    (Fits node (filled chunks) → ∃ artifact, node.build chunks = .ok artifact) ∧
    ∀ artifact, node.build chunks = .ok artifact → ∀ n, 0 < n →
      ∀ system : BroadcastJoin n α β ν, Reached node artifact n system →
        (Keyed node → ∀ call, system.permits call = true →
          ∃ next, node.perform artifact system call = .ok next) ∧
        (∀ party, system.shared.build.isSome = true → (system.drivers party).finishing = true →
          (system.drivers party).finished = false → system.permits (.pull party) = true) ∧
        ((∀ party, (system.drivers party).finished = true) →
          (gathered system.emitted).Perm (node.sqlJoin (gathered system.received) chunks.flatten)) := by
  constructor
  · intro fits
    obtain ⟨artifact,built,-⟩ := build_ok fits
    exact ⟨artifact,built⟩
  intro artifact built n some system reached
  have artifactHolds := build_holds built
  have holds := reached_holds artifactHolds plain some reached
  refine ⟨?_,?_,?_⟩
  · intro keyed call permitted
    rcases perform_holds artifactHolds plain holds call permitted with
      ⟨unkeyed,-⟩ | ⟨next,performed,-⟩
    · exact absurd keyed unkeyed
    · exact ⟨next,performed⟩
  · intro party set ending unfinished
    have notDone : (system.drivers party).finishingDone = false := by
      rw [(holds.each party).done, unfinished]
    unfold BroadcastJoin.permits hasOutput
    simp [set, ending, notDone]
  · intro finished
    have all : counted system.ended = n := counted_eq_all.mpr finished
    have emitted : system.made = system.emitted := by
      funext party
      rw [BroadcastJoin.made, (holds.each party).handed (finished party)]
      simp
    have rows := holds.rows
    rw [all, if_pos rfl, probeRows_buildRows, emitted, flatten_filled] at rows
    exact rows

include plain in
/-- No row is emitted that would have to be taken back. In every state of a run the rows
emitted are rows of the join of what has come in, and as long as one driver has not finished
they are rows the probe rows make: whether a build row has a partner is still open. -/
theorem emitted_within_join (chunks : List (List β)) (built : node.build chunks = .ok artifact) (some : 0 < n)
    (reached : Reached node artifact n system) :
    (gathered system.emitted).Subperm (node.sqlJoin (gathered system.received) chunks.flatten) ∧
      ∀ party, (system.drivers party).finished = false →
        (gathered system.emitted).Subperm (node.probeRows (gathered system.received) chunks.flatten) := by
  have emitted : (gathered system.emitted).Sublist (gathered system.made) :=
    Sublist.flatMap_right _ fun _ _ => sublist_append_left _ _
  have within := emitted.subperm.trans (reached_holds (build_holds built) plain some reached).rows.subperm
  rw [flatten_filled] at within
  constructor
  · rw [← probeRows_buildRows]
    refine within.trans (Sublist.subperm ?_)
    split
    · exact Sublist.refl _
    · exact (nil_sublist _).append_left _
  · intro party unfinished
    rwa [if_neg (counted_ended_ne unfinished), append_nil] at within

def JoinNode.performAll (node : JoinNode α β ν) (artifact : JoinBuildArtifact β ν) :
    BroadcastJoin n α β ν → List (BroadcastCall n α) → Except String (BroadcastJoin n α β ν)
  | system, [] => .ok system
  | system, call :: calls => do
    guardThat (system.permits call) "call not permitted"
    let next ← node.perform artifact system call
    node.performAll artifact next calls

theorem reached_performAll (calls : List (BroadcastCall n α)) :
    ∀ system : BroadcastJoin n α β ν, Reached node artifact n system →
      ∀ last, node.performAll artifact system calls = .ok last → Reached node artifact n last := by
  induction calls with
  | nil =>
    intro system reached last done
    cases done
    exact reached
  | cons call calls ih =>
    intro system reached last done
    obtain ⟨_,permitted,rest⟩ := bind_ok done
    obtain ⟨next,performed,rest⟩ := bind_ok rest
    exact ih next (.call reached call (guardThat_ok permitted) performed) last rest

end

def sampleOuter : JoinNode (Option Nat) (Option Nat) Nat :=
  ⟨.rightOuter, [id], [id], [false], none, [], id, rfl, rfl, nofun⟩

def sampleCalls : List (BroadcastCall 2 (Option Nat)) :=
  [.finish 1, .setBuild, .push 0 [some 1, none], .pull 1, .pull 0, .push 0 [some 3, some 3], .finish 0, .pull 0,
    .pull 0]

/-- Driver 1 ends first and with no row; driver 0 makes the build rows without a partner. -/
theorem sampleOuter_run : ∃ (artifact : JoinBuildArtifact (Option Nat) Nat)
    (system : BroadcastJoin 2 (Option Nat) (Option Nat) Nat),
    sampleOuter.build [[some 1, none], [], [some 3]] = .ok artifact ∧
    sampleOuter.performAll artifact (.start 2) sampleCalls = .ok system ∧
    (∀ party, (system.drivers party).finished = true) ∧
    (gathered system.emitted).Perm
      (sampleOuter.sqlJoin (gathered system.received) [some 1, none, some 3]) := by
  refine ⟨_,_,rfl,rfl,by decide,?_⟩
  exact ((broadcast_join_correct sampleOuter (by decide) [[some 1, none], [], [some 3]]).2 _ rfl 2 (by decide)
    _ (reached_performAll sampleCalls _ .start _ rfl)).2.2 (by decide)

theorem sampleOuter_within : ∃ artifact, ∃ system : BroadcastJoin 2 (Option Nat) (Option Nat) Nat,
    sampleOuter.build [[some 1, none]] = .ok artifact ∧
    sampleOuter.performAll artifact (.start 2) [.setBuild, .push 0 [some 1], .pull 0] = .ok system ∧
    gathered system.emitted ≠ [] ∧
    (gathered system.emitted).Subperm (sampleOuter.probeRows (gathered system.received) [some 1, none]) := by
  refine ⟨_,_,rfl,rfl,by decide,?_⟩
  exact (emitted_within_join (by decide : sampleOuter.joinType ≠ _) [[some 1, none]] rfl (by decide)
    (reached_performAll [.setBuild, .push 0 [some 1], .pull 0] _ .start _ rfl)).2 0 rfl

end NovaRocks.HashJoin
