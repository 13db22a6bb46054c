import NovaRocks.SetOp.SetOpRuns

/-!
INTERSECT gives its result in every order of calls. EXCEPT gives it if every input but the
first has a chunk: an input without chunks can finish before its turn, and then the counter is
too high or, after the first input has finished, too low.
-/
namespace NovaRocks.SetOp
open NovaRocks.Store List
open SetOpSystem (permits)

section
variable {n : Nat} {α M : Type} [DecidableEq α]

/-- In every state some order of calls leads to: no call fails, rows are handed out once, only
rows of the result and only when all inputs have finished, and when no call is left the whole
result has been handed out. -/
structure SetOpPlan.Correct (plan : SetOpPlan n α) (semantics : DistinctSetSemantics M) (result : α → Prop)
    (system : SetOpSystem n α M) : Prop where
  runs : ∀ call, system.permits call = true → ∃ next, plan.perform semantics system call = .ok next
  distinct : system.emitted.flatten.Nodup
  sound : ∀ row ∈ system.emitted.flatten, result row
  last : system.emitted ≠ [] → ∀ producer, (system.sinks producer).finished = true
  complete : (∀ call, system.permits call = false) → ∀ row, result row → row ∈ system.emitted.flatten

variable {plan : SetOpPlan n α} {semantics : DistinctSetSemantics M} {agrees : (Nat → Prop) → M → Prop}
  {wanted : (Nat → Prop) → Prop} {sent : Fin n → List (List α)} {system : SetOpSystem n α M}

variable (ordered : plan.Ordered agrees wanted sent system)

variable (all : system.controller.currentStage = plan.stageTotal)

include ordered all in
omit [DecidableEq α] in
theorem SetOpPlan.Ordered.all_finished (producer : Fin n) : (system.sinks producer).finished = true := by
  apply ordered.below
  rw [all]
  exact plan.inRange producer

include ordered all in
omit [DecidableEq α] in
theorem SetOpPlan.Ordered.all_sent : sent = plan.chunks := by
  funext producer
  rw [ordered.split producer, ordered.ended producer (ordered.all_finished all producer), append_nil]

include ordered in
omit [DecidableEq α] in
/-- While an input has not finished, one of its producers has a call. -/
theorem SetOpPlan.Ordered.at_end (quiet : ∀ call, system.permits call = false) :
    system.controller.currentStage = plan.stageTotal ∧ system.source.finished = true := by
  have all : system.controller.currentStage = plan.stageTotal := by
    by_contra early
    have bound := ordered.bounded
    obtain ⟨producer,turn,open_⟩ := ordered.running _ (Nat.le_refl _) (by omega)
    have push := quiet (.push producer)
    have finish := quiet (.finish producer)
    cases left : (system.sinks producer).left with
    | nil =>
      simp [permits, left, open_] at finish
    | cons chunk rest =>
      simp [permits, DistinctSetSink.needInput, SetOpStageController.isStageReady, left, open_,
        ordered.stage, turn] at push
  have pull := quiet .pull
  simpa [permits, SetOpStageController.isStageReady, ordered.total, all] using pull

theorem SetOpPlan.Ordered.correct (tracks : Tracks semantics plan.stageTotal agrees wanted) (few : plan.FewRows)
    (chunks : ∀ input, 0 < input → input < plan.stageTotal → plan.HasChunk input)
    (ordered : plan.Ordered agrees wanted sent system) :
    plan.Correct semantics
    (fun row => plan.HasRow 0 row ∧ wanted fun input => plan.HasRow input row) system := by
  have source := ordered.source
  have part : (rowsAt system.source.keys (system.source.indices.take system.source.offset)).Sublist
      (rowsAt system.source.keys system.source.indices) :=
    Sublist.filterMap _ (take_sublist _ _)
  have started : system.emitted ≠ [] → system.source.prepared = true := by
    intro some_
    by_contra unprepared
    exact some_ (source.early (Bool.eq_false_iff.mpr unprepared)).2.2
  refine ⟨?_,?_,?_,?_,?_⟩
  · intro call permitted
    obtain ⟨next,-,done,-⟩ := ordered.call tracks few chunks call permitted
    exact ⟨next,done⟩
  · rw [source.emitted]
    exact part.nodup source.distinct
  · intro row emitted
    have prepared := started (by
      intro none
      rw [none] at emitted
      exact not_mem_nil emitted)
    rw [source.emitted] at emitted
    have wants := (source.rows prepared row).mp (part.subset emitted)
    rw [ordered.all_sent (source.late prepared)] at wants
    exact wants
  · intro some_ producer
    exact ordered.all_finished (source.late (started some_)) producer
  · intro quiet row wants
    obtain ⟨all,finished⟩ := ordered.at_end quiet
    have prepared : system.source.prepared = true := by
      by_contra unprepared
      have open_ := (source.early (Bool.eq_false_iff.mpr unprepared)).1
      cases finished.symm.trans open_
    rw [source.emitted, take_of_length_le (source.ended finished)]
    apply (source.rows prepared row).mpr
    rw [ordered.all_sent all]
    exact wants

/-! ### Operations without a result -/

/-- No order of calls fills the table with a row that is handed out. -/
structure SetOpPlan.Silent (plan : SetOpPlan n α) (semantics : DistinctSetSemantics M)
    (calm : DistinctSetInner α M → Prop) : Prop where
  start : calm ⟨none, []⟩
  ingest : ∀ producer, ∀ chunk ∈ plan.chunks producer, ∀ inner, calm inner →
    ∃ inner', SetOp.ingest semantics inner (plan.stage producer) chunk = .ok inner' ∧ calm inner'
  output : ∀ inner, calm inner → ∃ keys, snapshotOutput semantics inner plan.stageTotal = .ok (keys, [])

structure SetOpPlan.Quiet (plan : SetOpPlan n α) (calm : DistinctSetInner α M → Prop)
    (system : SetOpSystem n α M) : Prop where
  stage : ∀ producer, (system.sinks producer).stage = plan.stage producer
  left : ∀ producer, ∀ chunk ∈ (system.sinks producer).left, chunk ∈ plan.chunks producer
  total : system.controller.stageTotal = plan.stageTotal
  remaining : system.controller.remainingProducers.length = plan.stageTotal
  table : calm system.inner
  source : system.source.indices = []
  emitted : system.emitted = []

omit [DecidableEq α] in
theorem SetOpPlan.Quiet.sinks (quiet : plan.Quiet calm system) (producer : Fin n) (left : List (List α))
    (finished : Bool) (fewer : ∀ chunk ∈ left, chunk ∈ (system.sinks producer).left) :
    (∀ other, (Function.update system.sinks producer
      ⟨(system.sinks producer).stage, left, finished⟩ other).stage = plan.stage other) ∧
    (∀ other, ∀ chunk ∈ (Function.update system.sinks producer
      ⟨(system.sinks producer).stage, left, finished⟩ other).left, chunk ∈ plan.chunks other) := by
  constructor
  · exact (Function.forall_update_iff system.sinks fun other s => s.stage = plan.stage other).mpr
      ⟨quiet.stage producer,fun other _ => quiet.stage other⟩
  · exact (Function.forall_update_iff system.sinks
      fun other s => ∀ chunk ∈ s.left, chunk ∈ plan.chunks other).mpr
      ⟨fun chunk member => quiet.left producer chunk (fewer chunk member),fun other _ => quiet.left other⟩

theorem producerFinished_ok {controller : SetOpStageController}
    (inside : stage < controller.remainingProducers.length) :
    ∃ next, controller.producerFinished stage = .ok next ∧ next.stageTotal = controller.stageTotal ∧
      next.remainingProducers.length = controller.remainingProducers.length := by
  unfold SetOpStageController.producerFinished
  rw [getElem?_eq_getElem inside]
  exact ⟨_,rfl,rfl,length_set⟩

theorem SetOpPlan.Quiet.call (silent : plan.Silent semantics calm) (quiet : plan.Quiet calm system)
    (call : SetOpCall n) (permitted : system.permits call = true) :
    ∃ next, plan.perform semantics system call = .ok next ∧ plan.Quiet calm next := by
  cases call with
  | push producer =>
    simp only [permits, Bool.and_eq_true, Bool.not_eq_true'] at permitted
    obtain ⟨chunk,rest,left⟩ := exists_cons_of_ne_nil (isEmpty_eq_false_iff.mp permitted.1)
    have listed : chunk ∈ plan.chunks producer := by
      apply quiet.left
      rw [left]
      exact mem_cons_self
    obtain ⟨inner,ingested,still⟩ := silent.ingest producer chunk listed system.inner quiet.table
    obtain ⟨stage,fewer⟩ := quiet.sinks producer rest (system.sinks producer).finished (by
      intro other member
      rw [left]
      exact mem_cons_of_mem chunk member)
    refine ⟨{ system with
        inner := inner
        sinks := Function.update system.sinks producer { system.sinks producer with left := rest } },?_,
      { quiet with stage, left := fewer, table := still }⟩
    rw [SetOpPlan.perform.eq_1]
    rw [left, quiet.stage]
    change (SetOp.ingest semantics system.inner (plan.stage producer) chunk >>= _) = _
    rw [ingested, ← quiet.stage]
    rfl
  | finish producer =>
    have inside : (system.sinks producer).stage < system.controller.remainingProducers.length := by
      rw [quiet.stage, quiet.remaining]
      exact plan.inRange producer
    obtain ⟨controller,finished,total,remaining⟩ := producerFinished_ok inside
    obtain ⟨stage,fewer⟩ := quiet.sinks producer (system.sinks producer).left true (fun chunk member => member)
    refine ⟨{ system with
        controller := controller
        sinks := Function.update system.sinks producer { system.sinks producer with finished := true } },?_,
      { quiet with
        stage, left := fewer, total := total.trans quiet.total, remaining := remaining.trans quiet.remaining }⟩
    rw [SetOpPlan.perform.eq_2]
    rw [finished]
    rfl
  | pull =>
    simp only [permits, Bool.and_eq_true, Bool.not_eq_true'] at permitted
    obtain ⟨source,done,empty⟩ : ∃ source,
        system.source.prepare semantics system.inner system.controller.stageTotal = .ok source ∧
          source.indices = [] := by
      unfold DistinctSetSource.prepare
      cases prepared : system.source.prepared with
      | true => exact ⟨system.source,if_pos rfl,quiet.source⟩
      | false =>
        obtain ⟨keys,output⟩ := silent.output system.inner quiet.table
        refine ⟨{ system.source with keys := keys, indices := [], prepared := true },?_,rfl⟩
        rw [if_neg Bool.false_ne_true, quiet.total, output]
        rfl
    have slice : source.slice plan.batchSize = ({ source with finished := true }, none) := by
      unfold DistinctSetSource.slice
      rw [if_pos (by rw [empty]; exact Nat.zero_le _)]
    refine ⟨{ system with source := { source with finished := true } },?_,{ quiet with source := empty }⟩
    rw [SetOpPlan.perform.eq_3, DistinctSetSource.pullChunk, permitted.1, permitted.2, done]
    change Except.ok { system with
      source := (source.slice plan.batchSize).1
      emitted := system.emitted ++ (source.slice plan.batchSize).2.toList } = _
    rw [slice]
    change Except.ok { system with source := _, emitted := system.emitted ++ [] } = _
    rw [append_nil]

theorem SetOpPlan.reached_quiet (silent : plan.Silent semantics calm)
    (reached : plan.Reached semantics system) : plan.Quiet calm system := by
  induction reached with
  | start made =>
    rw [plan.start_eq] at made
    cases made
    exact ⟨fun _ => rfl,fun _ _ member => member,rfl,by simp,silent.start,rfl,rfl⟩
  | call _ call permitted done ih =>
    obtain ⟨next,performed,holds⟩ := ih.call silent call permitted
    cases done.symm.trans performed
    exact holds

theorem SetOpPlan.Quiet.correct (silent : plan.Silent semantics calm) (quiet : plan.Quiet calm system)
    (none : ∀ row, ¬ result row) : plan.Correct semantics result system where
  runs call permitted := by
    obtain ⟨next,done,-⟩ := quiet.call silent call permitted
    exact ⟨next,done⟩
  distinct := by
    rw [quiet.emitted]
    exact nodup_nil
  sound row emitted := by
    rw [quiet.emitted] at emitted
    exact absurd emitted not_mem_nil
  last some_ := absurd quiet.emitted some_
  complete _ row wants := absurd wants (none row)

/-- Without rows in the first input there is no table. -/
theorem except_silent (empty : ∀ row, ¬ plan.HasRow 0 row) :
    plan.Silent exceptSemantics fun inner => inner.keyTable = none where
  start := rfl
  ingest producer chunk listed inner none := by
    refine ⟨inner,?_,none⟩
    unfold ingest
    by_cases first : plan.stage producer = 0
    · have blank : chunk = [] := by
        apply eq_nil_iff_forall_not_mem.mpr
        intro row member
        exact empty row ⟨producer,first,chunk,listed,member⟩
      rw [if_pos first, ingestBuild, blank, if_pos isEmpty_nil]
    · rw [if_neg first, ingestProbe, none]
      split <;> rfl
  output inner none := by
    refine ⟨[],?_⟩
    unfold snapshotOutput
    rw [none]

theorem foldlM_ingestBuildRow_new {low : M → Prop} (new : low semantics.newMarker) (rows : List α)
    (keys : List α) (markers : List M) (length : keys.length = markers.length)
    (all : ∀ marker ∈ markers, low marker) :
    ∃ keys' markers', rows.foldlM (ingestBuildRow semantics) (keys, markers) = .ok (keys', markers') ∧
      keys'.length = markers'.length ∧ ∀ marker ∈ markers', low marker := by
  induction rows generalizing keys markers with
  | nil => exact ⟨keys,markers,rfl,length,all⟩
  | cons row rows ih =>
    by_cases known : row ∈ keys
    · obtain ⟨keys',markers',done,kept⟩ := ih keys markers length all
      refine ⟨keys',markers',?_,kept⟩
      rw [foldlM_cons, ingestBuildRow, if_pos known]
      exact done
    · obtain ⟨keys',markers',done,kept⟩ := ih (keys ++ [row]) (markers ++ [semantics.newMarker])
        (by rw [length_append, length_append, length]; rfl)
        (forall_mem_append.mpr ⟨all,forall_mem_singleton.mpr new⟩)
      refine ⟨keys',markers',?_,kept⟩
      rw [foldlM_cons, ingestBuildRow, if_neg known, if_neg (not_not.mpr length)]
      exact done

/-- No row gets past an input that has none. -/
def Stuck (input : Nat) (inner : DistinctSetInner α Nat) : Prop :=
  (inner.keyTable.getD []).length = inner.markers.length ∧ ∀ marker ∈ inner.markers, marker < input

theorem foldlM_ingestProbeRow_stuck (positive : 0 < stage) (small : stage ≤ 65535)
    (other : stage ≠ input) (keys rows : List α) (markers : List Nat)
    (length : keys.length = markers.length) (low : ∀ marker ∈ markers, marker < input) :
    ∃ markers', rows.foldlM (ingestProbeRow intersectSemantics stage keys) markers = .ok markers' ∧
      keys.length = markers'.length ∧ ∀ marker ∈ markers', marker < input := by
  induction rows generalizing markers with
  | nil => exact ⟨markers,rfl,length,low⟩
  | cons row rows ih =>
    obtain ⟨next,done,length',low'⟩ : ∃ next,
        ingestProbeRow intersectSemantics stage keys markers row = .ok next ∧ keys.length = next.length ∧
          ∀ marker ∈ next, marker < input := by
      unfold ingestProbeRow
      cases located : keys.idxOf? row with
      | none => exact ⟨markers,rfl,length,low⟩
      | some groupId =>
        obtain ⟨inside,-,-⟩ := idxOf?_eq_some_iff.mp located
        rw [length] at inside
        refine ⟨markers.set groupId (if markers[groupId] = stage - 1 then stage else markers[groupId]),?_,?_,?_⟩
        · dsimp only
          rw [getElem?_eq_getElem inside]
          dsimp only
          rw [intersect_applyProbe small]
          rfl
        · rw [length_set, length]
        · intro marker member
          rcases mem_or_eq_of_mem_set member with old | new
          · exact low marker old
          · have before := low markers[groupId] (getElem_mem inside)
            rw [new]
            split <;> omega
    obtain ⟨markers',rest,lengths,lows⟩ := ih next length' low'
    refine ⟨markers',?_,lengths,lows⟩
    rw [foldlM_cons, done]
    exact rest

theorem selectedGroups_none (few : stageTotal ≤ 65536) (markers : List Nat) :
    ∀ groupId, (∀ marker ∈ markers, marker ≠ stageTotal - 1) →
      selectedGroups intersectSemantics stageTotal groupId markers = .ok [] := by
  induction markers with
  | nil =>
    intro groupId _
    rfl
  | cons marker markers ih =>
    intro groupId low
    have rest := ih (groupId + 1) fun later member => low later (mem_cons_of_mem marker member)
    have unchosen : (marker == stageTotal - 1) = false := beq_eq_false_iff_ne.mpr (low marker mem_cons_self)
    rw [selectedGroups, intersect_markerSelected few, rest, unchosen]
    rfl

theorem intersect_silent (few : plan.stageTotal ≤ 65536) (positive : 0 < input)
    (below : input < plan.stageTotal) (empty : ¬ plan.HasChunk input) :
    plan.Silent intersectSemantics (Stuck input) where
  start := ⟨rfl,fun marker member => absurd member not_mem_nil⟩
  ingest producer chunk listed inner stuck := by
    have other : plan.stage producer ≠ input := by
      intro here
      exact empty ⟨producer,here,ne_nil_of_mem listed⟩
    have inRange := plan.inRange producer
    unfold ingest
    by_cases first : plan.stage producer = 0
    · rw [if_pos first, ingestBuild]
      by_cases blank : chunk.isEmpty = true
      · exact ⟨inner,if_pos blank,stuck⟩
      · have new : intersectSemantics.newMarker < input := positive
        obtain ⟨keys,markers,done,kept⟩ := foldlM_ingestBuildRow_new new chunk _ _ stuck.1 stuck.2
        refine ⟨⟨some keys,markers⟩,?_,kept⟩
        rw [if_neg blank, done]
        rfl
    · rw [if_neg first, ingestProbe]
      by_cases blank : chunk.isEmpty = true
      · exact ⟨inner,if_pos blank,stuck⟩
      · rw [if_neg blank]
        cases table : inner.keyTable with
        | none => exact ⟨inner,rfl,stuck⟩
        | some keys =>
          have length := stuck.1
          rw [table] at length
          obtain ⟨markers,done,length',low⟩ := foldlM_ingestProbeRow_stuck (Nat.pos_of_ne_zero first) (by omega)
            other keys chunk inner.markers length stuck.2
          refine ⟨⟨some keys,markers⟩,?_,length',low⟩
          dsimp only
          rw [done]
          rfl
  output inner stuck := by
    have none := selectedGroups_none few inner.markers 0 fun marker member => by
      have low := stuck.2 marker member
      omega
    unfold snapshotOutput
    cases table : inner.keyTable with
    | none => exact ⟨[],rfl⟩
    | some keys =>
      by_cases blank : inner.markers.isEmpty = true
      · exact ⟨[],if_pos blank⟩
      · refine ⟨keys,?_⟩
        dsimp only
        rw [if_neg blank, none]
        rfl

/-! ### The two operations -/

def SetOpPlan.InAll (plan : SetOpPlan n α) (row : α) : Prop :=
  ∀ input, input < plan.stageTotal → plan.HasRow input row

def SetOpPlan.OnlyFirst (plan : SetOpPlan n α) (row : α) : Prop :=
  plan.HasRow 0 row ∧ ∀ input, 0 < input → input < plan.stageTotal → ¬ plan.HasRow input row

omit [DecidableEq α] in
theorem SetOpPlan.inAll_iff (plan : SetOpPlan n α) (row : α) :
    (plan.HasRow 0 row ∧ intersectWanted plan.stageTotal fun input => plan.HasRow input row) ↔ plan.InAll row := by
  have several := plan.several
  constructor
  · rintro ⟨first,others⟩ input below
    rcases Nat.eq_zero_or_pos input with zero | positive
    · rw [zero]
      exact first
    · exact others input positive below
  · intro all
    exact ⟨all 0 (by omega),fun input _ below => all input below⟩

theorem SetOpPlan.Correct.congr (correct : plan.Correct semantics result system)
    (same : ∀ row, result row ↔ result' row) : plan.Correct semantics result' system := by
  have equal : result = result' := funext fun row => propext (same row)
  rw [← equal]
  exact correct

/-- Every order of calls gives the result: for INTERSECT always, and for EXCEPT if the first
input has no rows or each other input has a chunk. -/
theorem set_operations_correct (plan : SetOpPlan n α) (few : plan.FewRows) :
    (plan.stageTotal ≤ 65536 → ∀ system, plan.Reached intersectSemantics system →
      plan.Correct intersectSemantics plan.InAll system) ∧
    (((∀ row, ¬ plan.HasRow 0 row) ∨ ∀ input, 0 < input → input < plan.stageTotal → plan.HasChunk input) →
      ∀ system, plan.Reached exceptSemantics system → plan.Correct exceptSemantics plan.OnlyFirst system) := by
  constructor
  · intro small system reached
    by_cases chunks : ∀ input, 0 < input → input < plan.stageTotal → plan.HasChunk input
    · have tracks := intersect_tracks plan.several small
      obtain ⟨sent,ordered⟩ := plan.reached_ordered tracks few chunks reached
      exact (ordered.correct tracks few chunks).congr plan.inAll_iff
    · push Not at chunks
      obtain ⟨input,positive,below,empty⟩ := chunks
      have silent := intersect_silent small positive below empty
      refine (plan.reached_quiet silent reached).correct silent ?_
      intro row all
      obtain ⟨producer,here,chunk,listed,-⟩ := all input below
      exact empty ⟨producer,here,ne_nil_of_mem listed⟩
  · rintro (empty | chunks) system reached
    · have silent := except_silent empty
      refine (plan.reached_quiet silent reached).correct silent ?_
      rintro row ⟨first,-⟩
      exact empty row first
    · have tracks := except_tracks plan.stageTotal
      obtain ⟨sent,ordered⟩ := plan.reached_ordered tracks few chunks reached
      exact ordered.correct tracks few chunks

end

/-! ### A row is lost -/

def twoInputs (first second : List (List Nat)) : SetOpPlan 2 Nat where
  stageTotal := 2
  stage := fun producer => producer.val
  chunks := fun producer => if producer.val = 0 then first else second
  batchSize := none
  several := Nat.le_refl 2
  inRange := fun producer => producer.isLt
  produced := fun input below => ⟨⟨input, below⟩, rfl⟩

theorem twoInputs_hasRow : (twoInputs first second).HasRow 0 row ↔ ∃ chunk ∈ first, row ∈ chunk := by
  constructor
  · rintro ⟨producer,here,chunk,listed,member⟩
    have zero : producer = 0 := Fin.ext here
    subst zero
    exact ⟨chunk,listed,member⟩
  · rintro ⟨chunk,listed,member⟩
    exact ⟨0,rfl,chunk,listed,member⟩

theorem twoInputs_fewRows : (twoInputs [[1, 2]] [[2]]).FewRows := by
  intro rows distinct inside
  have sub : rows ⊆ [1, 2] := by
    intro row member
    obtain ⟨chunk,listed,has⟩ := twoInputs_hasRow.mp (inside row member)
    rw [mem_singleton.mp listed] at has
    exact has
  have short := (subperm_of_subset distinct sub).length_le
  exact Nat.le_trans short (by decide)

theorem set_operations_correct_two_inputs :
    (twoInputs [[1, 2]] [[2]]).FewRows ∧
      ∀ system, (twoInputs [[1, 2]] [[2]]).Reached exceptSemantics system →
        (twoInputs [[1, 2]] [[2]]).Correct exceptSemantics (twoInputs [[1, 2]] [[2]]).OnlyFirst system := by
  refine ⟨twoInputs_fewRows,(set_operations_correct _ twoInputs_fewRows).2 (.inr ?_)⟩
  intro input positive below
  change input < 2 at below
  exact ⟨1,by change 1 = input; omega,cons_ne_nil _ _⟩

def SetOpPlan.performAll {n : Nat} {α M : Type} [DecidableEq α] (plan : SetOpPlan n α)
    (semantics : DistinctSetSemantics M) :
    List (SetOpCall n) → SetOpSystem n α M → Except String (SetOpSystem n α M)
  | [], system => .ok system
  | call :: calls, system =>
    if system.permits call then plan.perform semantics system call >>= plan.performAll semantics calls
    else .error "not permitted"

theorem SetOpPlan.reached_performAll {n : Nat} {α M : Type} [DecidableEq α] {plan : SetOpPlan n α}
    {semantics : DistinctSetSemantics M} (calls : List (SetOpCall n))
    {system last : SetOpSystem n α M} (reached : plan.Reached semantics system)
    (run : plan.performAll semantics calls system = .ok last) : plan.Reached semantics last := by
  induction calls generalizing system last with
  | nil =>
    cases run
    exact reached
  | cons call calls ih =>
    unfold performAll at run
    split at run
    case isTrue permitted =>
      obtain ⟨next,done,rest⟩ := bind_ok run
      exact ih (.call reached call permitted done) rest
    case isFalse refused => cases run

/-- The second input of `{1} EXCEPT ∅` finishes first; the source ends before the first input
has come, and the row is lost. -/
theorem except_loses_row :
    ∃ system, (twoInputs [[1]] []).Reached exceptSemantics system ∧ (∀ call, system.permits call = false) ∧
      (twoInputs [[1]] []).OnlyFirst 1 ∧ system.emitted = [] := by
  obtain ⟨system,run,quiet,emitted⟩ : ∃ system, ((twoInputs [[1]] []).start exceptSemantics >>=
      (twoInputs [[1]] []).performAll exceptSemantics [.finish 1, .pull, .push 0, .finish 0]) = .ok system ∧
      (∀ call, system.permits call = false) ∧ system.emitted = [] := by
    refine ⟨_,rfl,?_,rfl⟩
    intro call
    cases call with
    | push producer | finish producer =>
      match producer with
      | 0 => rfl
      | 1 => rfl
    | pull => rfl
  obtain ⟨first,made,rest⟩ := bind_ok run
  refine ⟨system,SetOpPlan.reached_performAll _ (.start made) rest,quiet,?_,emitted⟩
  refine ⟨twoInputs_hasRow.mpr ⟨[1],mem_cons_self,mem_cons_self⟩,?_⟩
  rintro input positive - ⟨producer,here,chunk,listed,-⟩
  have second : producer.val ≠ 0 := by
    change producer.val = input at here
    omega
  change chunk ∈ if producer.val = 0 then _ else _ at listed
  rw [if_neg second] at listed
  exact not_mem_nil listed

end NovaRocks.SetOp
