import NovaRocks.SetOp.SetMarks

/-!
Runs of a set operation. If every input but the first has a chunk, no input can finish before
its turn and the inputs come one after the other: the counter only grows, the source starts
when all have finished, and it hands out what the operation means.
-/
namespace NovaRocks.SetOp
open NovaRocks.Store
open SetOpStageController (isStageReady producerFinished)
open List hiding min max
open Function (update update_of_ne update_self)

section
variable {n : Nat} {α M : Type}

section
variable (plan : SetOpPlan n α)

def SetOpPlan.Seen (sent : Fin n → List (List α)) (input : Nat) (row : α) : Prop :=
  ∃ producer, plan.stage producer = input ∧ ∃ chunk ∈ sent producer, row ∈ chunk

def SetOpPlan.HasRow (input : Nat) (row : α) : Prop :=
  plan.Seen plan.chunks input row

def SetOpPlan.HasChunk (input : Nat) : Prop :=
  ∃ producer, plan.stage producer = input ∧ plan.chunks producer ≠ []

/-- The rows of the first input can be numbered with 32 bits. -/
def SetOpPlan.FewRows : Prop :=
  ∀ rows : List α, rows.Nodup → (∀ row ∈ rows, plan.HasRow 0 row) → rows.length ≤ 2 ^ 32

def SetOpPlan.unfinished (sinks : Fin n → DistinctSetSink α) (input : Nat) : Nat :=
  counted fun producer => plan.stage producer == input && !(sinks producer).finished

theorem SetOpPlan.seen_push (sent : Fin n → List (List α)) (producer : Fin n) (chunk : List α)
    (input : Nat) (row : α) :
    alsoSeen (plan.Seen sent) (plan.stage producer) chunk input row ↔
      plan.Seen (update sent producer (sent producer ++ [chunk])) input row := by
  have listed : ∀ other before, before ∈ update sent producer (sent producer ++ [chunk]) other ↔
      before ∈ sent other ∨ other = producer ∧ before = chunk := by
    intro other before
    by_cases same : other = producer
    · subst same
      simp
    · simp [same]
  unfold Seen
  simp only [listed]
  constructor
  · rintro (⟨other,here,before,member,has⟩ | ⟨here,has⟩)
    · exact ⟨other,here,before,.inl member,has⟩
    · exact ⟨producer,here.symm,chunk,.inr ⟨rfl,rfl⟩,has⟩
  · rintro ⟨other,here,before,old | ⟨rfl,rfl⟩,has⟩
    · exact .inl ⟨other,here,before,old,has⟩
    · exact .inr ⟨here.symm,has⟩

end

variable {producer : Fin n}

theorem SetOpPlan.unfinished_finish (plan : SetOpPlan n α)
    (running : (sinks producer).finished = false) (input : Nat) :
    plan.unfinished sinks input =
      plan.unfinished (update sinks producer { sinks producer with finished := true }) input +
        if plan.stage producer = input then 1 else 0 := by
  unfold unfinished
  by_cases here : plan.stage producer = input
  · have last : (plan.stage producer == input && !(update sinks producer
        { sinks producer with finished := true } producer).finished) = false := by simp
    rw [if_pos here, ← counted_update last]
    congr 1
    funext other
    by_cases same : other = producer
    · subst same
      simp [running, here]
    · rw [update_of_ne same, update_of_ne same]
  · rw [if_neg here, Nat.add_zero]
    congr 1
    funext other
    by_cases same : other = producer
    · subst same
      simp [here]
    · rw [update_of_ne same]

/-! ### In order -/

/-- What the source has: nothing before all have finished, and then a prefix of the wanted rows. -/
structure SetOpPlan.SourceHolds (plan : SetOpPlan n α) (wanted : (Nat → Prop) → Prop)
    (sent : Fin n → List (List α)) (system : SetOpSystem n α M) : Prop where
  early : system.source.prepared = false →
    system.source.finished = false ∧ system.source.offset = 0 ∧ system.emitted = []
  late : system.source.prepared = true → system.controller.currentStage = plan.stageTotal
  distinct : (rowsAt system.source.keys system.source.indices).Nodup
  rows : system.source.prepared = true → ∀ row, row ∈ rowsAt system.source.keys system.source.indices ↔
    plan.Seen sent 0 row ∧ wanted fun stage => plan.Seen sent stage row
  emitted : system.emitted.flatten =
    rowsAt system.source.keys (system.source.indices.take system.source.offset)
  ended : system.source.finished = true → system.source.indices.length ≤ system.source.offset

/-- Inputs below the counter have finished, inputs above it have not begun. -/
structure SetOpPlan.Ordered (plan : SetOpPlan n α) (agrees : (Nat → Prop) → M → Prop)
    (wanted : (Nat → Prop) → Prop) (sent : Fin n → List (List α)) (system : SetOpSystem n α M) : Prop where
  stage : ∀ producer, (system.sinks producer).stage = plan.stage producer
  split : ∀ producer, plan.chunks producer = sent producer ++ (system.sinks producer).left
  ended : ∀ producer, (system.sinks producer).finished = true → (system.sinks producer).left = []
  total : system.controller.stageTotal = plan.stageTotal
  remaining : ∀ input, input < plan.stageTotal →
    system.controller.remainingProducers[input]? = some (plan.unfinished system.sinks input)
  bounded : system.controller.currentStage ≤ plan.stageTotal
  below : ∀ producer, plan.stage producer < system.controller.currentStage →
    (system.sinks producer).finished = true
  running : ∀ input, system.controller.currentStage ≤ input → input < plan.stageTotal →
    ∃ producer, plan.stage producer = input ∧ (system.sinks producer).finished = false
  waiting : ∀ producer, system.controller.currentStage < plan.stage producer → sent producer = []
  table : system.inner.Holds agrees (plan.Seen sent)
  source : plan.SourceHolds wanted sent system

variable {plan : SetOpPlan n α} {semantics : DistinctSetSemantics M} {agrees : (Nat → Prop) → M → Prop}
  {wanted : (Nat → Prop) → Prop} {sent : Fin n → List (List α)} {system : SetOpSystem n α M}

theorem SetOpPlan.start_eq (plan : SetOpPlan n α) (semantics : DistinctSetSemantics M) :
    plan.start semantics = .ok ⟨⟨0, ((range plan.stageTotal).map plan.producers).map (max · 1),
      plan.stageTotal⟩, ⟨none, []⟩, fun producer => ⟨plan.stage producer, plan.chunks producer, false⟩,
      ⟨false, false, [], [], 0⟩, []⟩ := by
  have length : ((range plan.stageTotal).map plan.producers).length = plan.stageTotal := by simp
  have several := plan.several
  unfold SetOpPlan.start SetOpStageController.new
  rw [if_neg (by omega), length]
  rfl

theorem SetOpPlan.start_remaining (plan : SetOpPlan n α) (below : input < plan.stageTotal) :
    (((range plan.stageTotal).map plan.producers).map (max · 1))[input]? =
      some (plan.unfinished (fun producer => ⟨plan.stage producer, plan.chunks producer, false⟩) input) := by
  have count : plan.unfinished (fun producer => ⟨plan.stage producer,plan.chunks producer,false⟩) input =
      plan.producers input := by
    unfold unfinished producers
    congr 1
    funext producer
    exact Bool.and_true _
  have some_ : plan.producers input ≠ 0 := by
    intro zero
    obtain ⟨producer,here⟩ := plan.produced input below
    simpa [here] using counted_eq_zero.mp zero producer
  rw [count, getElem?_map, getElem?_map, getElem?_range below]
  exact congrArg some (Nat.max_eq_left (Nat.pos_of_ne_zero some_))

theorem SetOpPlan.start_ordered (agrees : (Nat → Prop) → M → Prop) (wanted : (Nat → Prop) → Prop)
    (made : plan.start semantics = .ok system) : plan.Ordered agrees wanted (fun _ => []) system := by
  rw [plan.start_eq] at made
  cases made
  exact {
    stage := fun producer => rfl
    split := fun producer => rfl
    ended := fun producer finished => absurd finished Bool.false_ne_true
    total := rfl
    remaining := fun input below => plan.start_remaining below
    bounded := Nat.zero_le _
    below := fun producer low => absurd low (Nat.not_lt_zero _)
    running := fun input _ below => by
      obtain ⟨producer,here⟩ := plan.produced input below
      exact ⟨producer,here,rfl⟩
    waiting := fun producer _ => rfl
    table := by
      refine ⟨nodup_nil,fun row => iff_of_false not_mem_nil ?_,rfl,?_⟩
      · rintro ⟨producer,-,chunk,member,-⟩
        exact not_mem_nil member
      · intro groupId row marker found
        cases found
    source := {
      early := fun _ => ⟨rfl,rfl,rfl⟩
      late := fun prepared => absurd prepared Bool.false_ne_true
      distinct := nodup_nil
      rows := fun prepared => absurd prepared Bool.false_ne_true
      emitted := rfl
      ended := fun finished => absurd finished Bool.false_ne_true } }

variable [DecidableEq α]

omit [DecidableEq α] in
theorem changed_sink (sinks : Fin n → DistinctSetSink α) (producer : Fin n) (sink : DistinctSetSink α) :
    ∃ sinks', update sinks producer sink = sinks' ∧ sinks' producer = sink ∧
      (∀ other, other ≠ producer → sinks' other = sinks other) ∧
      ∀ {P : Fin n → DistinctSetSink α → Prop}, P producer sink →
        (∀ other, other ≠ producer → P other (sinks other)) → ∀ other, P other (sinks' other) :=
  ⟨_,rfl,update_self ..,fun _ different => update_of_ne different ..,
    fun {P} own others => (Function.forall_update_iff sinks P).mpr ⟨own,others⟩⟩

variable (ordered : plan.Ordered agrees wanted sent system)

include ordered in
omit [DecidableEq α] in
theorem SetOpPlan.Ordered.sink (remains : (system.sinks producer).left = left)
    (state : (system.sinks producer).finished = finished) :
    system.sinks producer = ⟨plan.stage producer, left, finished⟩ := by
  rw [← remains, ← state, ← ordered.stage producer]

include ordered in
omit [DecidableEq α] in
theorem SetOpPlan.Ordered.reached (open_ : (system.sinks producer).finished = false) :
    system.controller.currentStage ≤ plan.stage producer := by
  by_contra low
  have done := ordered.below producer (by omega)
  cases open_.symm.trans done

include ordered in
omit [DecidableEq α] in
theorem SetOpPlan.Ordered.unprepared
    (open_ : (system.sinks producer).finished = false) : ¬ system.source.prepared = true := by
  intro prepared
  have all := ordered.source.late prepared
  have low := ordered.reached open_
  have inRange := plan.inRange producer
  omega

variable (tracks : Tracks semantics plan.stageTotal agrees wanted)

include tracks ordered in
theorem SetOpPlan.Ordered.push (producer : Fin n) (permitted : system.permits (.push producer) = true) :
    ∃ next sent', plan.perform semantics system (.push producer) = .ok next ∧
      plan.Ordered agrees wanted sent' next := by
  simp only [SetOpSystem.permits, DistinctSetSink.needInput, isStageReady,
    Bool.and_eq_true, Bool.not_eq_true', decide_eq_true_eq, ordered.stage producer] at permitted
  obtain ⟨nonempty,open_,ready⟩ := permitted
  have turn : plan.stage producer = system.controller.currentStage :=
    Nat.le_antisymm ready (ordered.reached open_)
  obtain ⟨chunk,rest,left⟩ := exists_cons_of_ne_nil (isEmpty_eq_false_iff.mp nonempty)
  have sink := ordered.sink left open_
  have early : ∀ later row, plan.stage producer < later → ¬ plan.Seen sent later row := by
    rintro later row after ⟨other,here,before,member,-⟩
    rw [ordered.waiting other (by omega)] at member
    exact not_mem_nil member
  obtain ⟨inner,ingested,holds⟩ := ingest_holds tracks (plan.inRange producer) ordered.table early chunk
  obtain ⟨sinks,changed,-,-,each⟩ := changed_sink system.sinks producer ⟨plan.stage producer,rest,false⟩
  have finished :=
    each (P := fun other s => s.finished = (system.sinks other).finished) open_.symm fun _ _ => rfl
  have stage := each (P := fun other s => s.stage = plan.stage other) rfl fun other _ => ordered.stage other
  have split := by
    refine each (P := fun other s => plan.chunks other =
      update sent producer (sent producer ++ [chunk]) other ++ s.left) ?_ fun other different => ?_
    · rw [update_self, ordered.split producer, left, append_assoc]
      rfl
    · rw [update_of_ne different]
      exact ordered.split other
  have ended :=
    each (P := fun _ s => s.finished = true → s.left = []) nofun fun other _ => ordered.ended other
  have waiting : ∀ other, system.controller.currentStage < plan.stage other →
      update sent producer (sent producer ++ [chunk]) other = [] := by
    intro other high
    have different : other ≠ producer := by
      intro same
      rw [same, turn] at high
      exact Nat.lt_irrefl _ high
    rw [update_of_ne different]
    exact ordered.waiting other high
  refine ⟨{ system with inner := inner, sinks := sinks },update sent producer (sent producer ++ [chunk]),
    ?_,?_⟩
  · rw [SetOpPlan.perform.eq_1, sink]
    change (ingest semantics system.inner (plan.stage producer) chunk >>= _) = _
    rw [ingested]
    exact congrArg (fun sinks => Except.ok { system with inner := inner, sinks := sinks }) changed
  · refine { ordered with
      stage, split, ended, waiting, remaining := ?_, below := ?_, running := ?_
      table := holds.congr (plan.seen_push sent producer chunk)
      source := { ordered.source with rows := fun prepared => absurd prepared (ordered.unprepared open_) } }
    · intro input below
      rw [ordered.remaining input below]
      unfold SetOpPlan.unfinished
      simp only [finished]
    · intro other low
      exact (finished other).trans (ordered.below other low)
    · intro input low below
      obtain ⟨other,here,running⟩ := ordered.running input low below
      exact ⟨other,here,(finished other).trans running⟩

/-- The counter after the last producer of an input, or another one, has finished. -/
def counterAfter (current stage unfinished : Nat) : Nat :=
  if unfinished = 1 then stage + 1 else current

variable (chunks : ∀ input, 0 < input → input < plan.stageTotal → plan.HasChunk input)

variable (ordered : plan.Ordered agrees wanted sent system)

include chunks ordered in
omit [DecidableEq α] in
theorem SetOpPlan.Ordered.last_turn
    (empty : (system.sinks producer).left = []) (open_ : (system.sinks producer).finished = false)
    (one : plan.unfinished system.sinks (plan.stage producer) = 1) :
    plan.stage producer = system.controller.currentStage := by
  have low := ordered.reached open_
  by_contra later
  obtain ⟨other,here,full⟩ := chunks (plan.stage producer) (by omega) (plan.inRange producer)
  have whole := ordered.split other
  rw [ordered.waiting other (by omega), nil_append] at whole
  rw [whole] at full
  have different : other ≠ producer := by
    intro same
    rw [same] at full
    exact full empty
  have count := plan.unfinished_finish open_ (plan.stage producer)
  rw [one, if_pos rfl] at count
  have done := counted_eq_zero.mp (Nat.succ.inj count.symm) other
  rw [here, BEq.rfl, Bool.true_and, Bool.not_eq_false', update_of_ne different] at done
  exact full (ordered.ended other done)

include chunks ordered in
theorem SetOpPlan.Ordered.finish (producer : Fin n) (permitted : system.permits (.finish producer) = true) :
    ∃ next, plan.perform semantics system (.finish producer) = .ok next ∧
      plan.Ordered agrees wanted sent next := by
  simp only [SetOpSystem.permits, Bool.and_eq_true, Bool.not_eq_true', List.isEmpty_iff] at permitted
  obtain ⟨empty,open_⟩ := permitted
  have inRange := plan.inRange producer
  have sink := ordered.sink empty open_
  obtain ⟨sinks,changed,own,others,each⟩ := changed_sink system.sinks producer ⟨plan.stage producer,[],true⟩
  have fewer : ∀ input, plan.unfinished system.sinks input = plan.unfinished sinks input +
      if plan.stage producer = input then 1 else 0 := by
    intro input
    have counts := plan.unfinished_finish open_ input
    rw [sink, changed] at counts
    exact counts
  have turn := ordered.last_turn chunks empty open_
  have stage := each (P := fun other s => s.stage = plan.stage other) rfl fun other _ => ordered.stage other
  have left := each (P := fun other s => s.left = (system.sinks other).left) empty.symm fun _ _ => rfl
  have ended :=
    each (P := fun _ s => s.finished = true → s.left = []) (fun _ => rfl) fun other _ => ordered.ended other
  -- All producers of the input have finished if this was the last one.
  have closed : plan.unfinished system.sinks (plan.stage producer) = 1 →
      ∀ other, plan.stage other = plan.stage producer → (sinks other).finished = true := by
    intro one other here
    have counts := fewer (plan.stage producer)
    rw [one, if_pos rfl] at counts
    have done := counted_eq_zero.mp (Nat.succ.inj counts.symm) other
    rwa [here, BEq.rfl, Bool.true_and, Bool.not_eq_false'] at done
  have still := each (P := fun other s => (system.sinks other).finished = true → s.finished = true) (fun _ => rfl)
      fun _ _ done => done
  refine ⟨{ system with
      controller := { system.controller with
        remainingProducers := system.controller.remainingProducers.set (plan.stage producer)
          (plan.unfinished system.sinks (plan.stage producer) - 1)
        currentStage := counterAfter system.controller.currentStage (plan.stage producer)
          (plan.unfinished system.sinks (plan.stage producer)) }
      sinks := sinks },?_,?_⟩
  · rw [SetOpPlan.perform.eq_2, sink, producerFinished, ordered.remaining _ inRange, ← changed]
    rfl
  · refine { ordered with
      stage, ended, remaining := ?_, below := ?_, running := ?_, split := ?_, bounded := ?_, waiting := ?_
      source := { ordered.source with late := fun prepared => absurd prepared (ordered.unprepared open_) } }
    · intro other
      rw [ordered.split other]
      exact congrArg (sent other ++ ·) (left other).symm
    · intro input below
      have counts := fewer input
      by_cases same : plan.stage producer = input
      · have inside := (List.getElem?_eq_some_iff.mp (ordered.remaining input below)).1
        rw [if_pos same] at counts
        rw [same, getElem?_set_self inside, counts, Nat.add_sub_cancel]
      · rw [if_neg same, Nat.add_zero] at counts
        rw [getElem?_set_ne same, ordered.remaining input below, counts]
    · have bound := ordered.bounded
      change counterAfter _ _ _ ≤ _
      unfold counterAfter
      split <;> omega
    · intro other low
      change _ < counterAfter _ _ _ at low
      unfold counterAfter at low
      split at low
      case isTrue one =>
        rcases Nat.lt_or_ge (plan.stage other) (plan.stage producer) with before | after
        · exact still other (ordered.below other (by rw [← turn one]; exact before))
        · exact closed one other (by omega)
      case isFalse many => exact still other (ordered.below other low)
    · intro input low inside
      change counterAfter _ _ _ ≤ _ at low
      unfold counterAfter at low
      by_cases here : plan.stage producer = input
      · -- Another producer of the same input is left.
        by_contra none
        have zero : plan.unfinished sinks input = 0 := by
          apply counted_eq_zero.mpr
          intro other
          by_contra open'
          rw [Bool.not_eq_false, Bool.and_eq_true, beq_iff_eq, Bool.not_eq_true'] at open'
          exact none ⟨other,open'⟩
        have counts := fewer input
        rw [zero, if_pos here] at counts
        rw [here, if_pos counts] at low
        omega
      · obtain ⟨other,there,open'⟩ := ordered.running input (by split at low <;> omega) inside
        have apart : other ≠ producer := fun same => here (same ▸ there)
        exact ⟨other,there,(congrArg _ (others other apart)).trans open'⟩
    · intro other high
      change counterAfter _ _ _ < _ at high
      unfold counterAfter at high
      apply ordered.waiting
      split at high <;> omega

variable (few : plan.FewRows)

include few ordered in
omit [DecidableEq α] in
theorem SetOpPlan.Ordered.few_keys : (system.inner.keyTable.getD []).length ≤ 2 ^ 32 := by
  apply few _ ordered.table.distinct
  intro row member
  obtain ⟨producer,here,chunk,listed,has⟩ := (ordered.table.mem_keys row).mp member
  refine ⟨producer,here,chunk,?_,has⟩
  rw [ordered.split producer]
  exact mem_append_left _ listed

include tracks few ordered in
omit [DecidableEq α] in
theorem SetOpPlan.Ordered.prepare (all : system.controller.currentStage = plan.stageTotal)
    (open_ : system.source.finished = false) :
    ∃ source, system.source.prepare semantics system.inner plan.stageTotal = .ok source ∧
      source.prepared = true ∧ source.finished = false ∧
      plan.SourceHolds wanted sent { system with source := source } := by
  unfold DistinctSetSource.prepare
  cases prepared : system.source.prepared with
  | true => exact ⟨system.source,if_pos rfl,prepared,open_,ordered.source⟩
  | false =>
    obtain ⟨output,done,distinct,rows⟩ := snapshotOutput_holds tracks ordered.table (ordered.few_keys few)
    obtain ⟨-,offset,emitted⟩ := ordered.source.early prepared
    refine ⟨{ system.source with keys := output.1, indices := output.2, prepared := true },?_,rfl,open_,?_⟩
    · rw [if_neg Bool.false_ne_true, done]
      rfl
    · refine ⟨fun not => absurd not.symm Bool.false_ne_true,fun _ => all,distinct,fun _ => rows,?_,?_⟩
      · change system.emitted.flatten = rowsAt output.1 (output.2.take system.source.offset)
        rw [emitted, offset]
        rfl
      · intro finished
        exact absurd (open_.symm.trans finished) Bool.false_ne_true

include tracks few ordered in
theorem SetOpPlan.Ordered.pull (permitted : system.permits .pull = true) :
    ∃ next, plan.perform semantics system .pull = .ok next ∧ plan.Ordered agrees wanted sent next := by
  simp only [SetOpSystem.permits, isStageReady, Bool.and_eq_true, Bool.not_eq_true',
    decide_eq_true_eq, ordered.total] at permitted
  obtain ⟨open_,ready⟩ := permitted
  have all : system.controller.currentStage = plan.stageTotal := Nat.le_antisymm ordered.bounded ready
  obtain ⟨source,done,prepared,unfinished,holds⟩ := ordered.prepare tracks few all open_
  have pulled : system.source.pullChunk semantics system.inner system.controller plan.batchSize =
      .ok (source.slice plan.batchSize) := by
    unfold DistinctSetSource.pullChunk isStageReady
    rw [open_, ordered.total, if_neg Bool.false_ne_true, if_neg (by simpa using ready), done]
    rfl
  refine ⟨{ system with
      source := (source.slice plan.batchSize).1
      emitted := system.emitted ++ (source.slice plan.batchSize).2.toList },?_,?_⟩
  · rw [SetOpPlan.perform.eq_3, pulled]
    rfl
  refine { ordered with source := ?_ }
  unfold DistinctSetSource.slice
  have notEarly : ∀ {p : Prop}, source.prepared = false → p :=
    fun not => absurd (not.symm.trans prepared) Bool.false_ne_true
  by_cases past : source.indices.length ≤ source.offset
  · rw [if_pos past]
    refine ⟨notEarly,fun _ => all,holds.distinct,holds.rows,?_,fun _ => past⟩
    change (system.emitted ++ []).flatten = _
    rw [append_nil]
    exact holds.emitted
  · rw [if_neg past]
    refine ⟨notEarly,fun _ => all,holds.distinct,holds.rows,?_,?_⟩
    · have stop : min (source.offset + chunkSize plan.batchSize) source.indices.length = source.offset +
          (min (source.offset + chunkSize plan.batchSize) source.indices.length - source.offset) := by omega
      have before : system.emitted.flatten = rowsAt source.keys (source.indices.take source.offset) := holds.emitted
      change (system.emitted ++ [rowsAt source.keys _]).flatten = rowsAt source.keys (source.indices.take _)
      rw [flatten_append, before, flatten_singleton]
      conv_rhs => rw [stop]
      rw [take_add, rowsAt, rowsAt, rowsAt, filterMap_append]
    · intro finished
      exact absurd (unfinished.symm.trans finished) Bool.false_ne_true

include tracks few in
/-- Every order of calls keeps the inputs in order, and no call fails. -/
theorem SetOpPlan.Ordered.call (chunks : ∀ input, 0 < input → input < plan.stageTotal → plan.HasChunk input)
    (ordered : plan.Ordered agrees wanted sent system) (call : SetOpCall n)
    (permitted : system.permits call = true) :
    ∃ next sent', plan.perform semantics system call = .ok next ∧ plan.Ordered agrees wanted sent' next := by
  cases call with
  | push producer => exact ordered.push tracks producer permitted
  | finish producer =>
    obtain ⟨next,done,holds⟩ := ordered.finish chunks producer permitted
    exact ⟨next,sent,done,holds⟩
  | pull =>
    obtain ⟨next,done,holds⟩ := ordered.pull tracks few permitted
    exact ⟨next,sent,done,holds⟩

include tracks few in
theorem SetOpPlan.reached_ordered
    (chunks : ∀ input, 0 < input → input < plan.stageTotal → plan.HasChunk input)
    (reached : plan.Reached semantics system) : ∃ sent, plan.Ordered agrees wanted sent system := by
  induction reached with
  | start made => exact ⟨_,plan.start_ordered agrees wanted made⟩
  | call _ call permitted done ih =>
    obtain ⟨sent,ordered⟩ := ih
    obtain ⟨next,sent',performed,holds⟩ := ordered.call tracks few chunks call permitted
    cases done.symm.trans performed
    exact ⟨sent',holds⟩

end

end NovaRocks.SetOp
