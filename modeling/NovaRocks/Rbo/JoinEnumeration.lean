import NovaRocks.Rbo.JoinReorder

/-!
What the three enumerations hand back. Every plan in a memo is built from the
relations by joins under exactly the predicates that connect their two sides, and
the plan returned joins all relations. The exhaustive search uses only joins with
an equality of two columns among these predicates.
-/
namespace NovaRocks
open Relational List
open Mask (getLsbD_bit size_bit)
open Function (update update_of_ne update_self)

/-- The plan joins the relations of the mask, each join under the predicates
that connect its two disjoint sides. -/
inductive Built (graph : JoinGraph) : RelationMask → LogicalPlan → Prop
  | relation {i : Nat} {plan : LogicalPlan} (found : graph.relations[i]? = some plan) :
    Built graph (Mask.bit i) plan
  | join {left right : RelationMask} {l r : LogicalPlan} (first : Built graph left l)
    (second : Built graph right r) (apart : left &&& right = 0#32) :
    Built graph (left ||| right)
      (joinParts l r (findConnectingPredicates graph.predicates left right))

/-- All entries of a memo are plans of this kind for their set of relations. -/
def MemoHolds (kind : RelationMask → LogicalPlan → Prop) (memo : DpTable σ κ) : Prop :=
  ∀ mask entry, memo mask = some entry → kind mask entry.plan

variable (est : Estimates σ κ) {graph : JoinGraph} {memo : DpTable σ κ}

section
variable {kind : RelationMask → LogicalPlan → Prop}

theorem MemoHolds.enter (holds : MemoHolds kind memo) (new : kind m entry.plan) :
    MemoHolds kind (update memo m (some entry)) := by
  intro k e found
  by_cases same : k = m
  · subst same
    rw [update_self] at found
    cases found
    exact new
  · rw [update_of_ne same] at found
    exact holds k e found

theorem initialMemo_holds (relations : List LogicalPlan)
    (single : ∀ i plan, relations[i]? = some plan → kind (Mask.bit i) plan) :
    MemoHolds kind (initialMemo est relations) := by
  refine foldlRecOn (motive := MemoHolds kind) _ _ (by simp [MemoHolds]) fun memo holds entry member => ?_
  exact holds.enter (single _ _ (mem_zipIdx_iff_getElem?.mp member))

theorem keepCheaper_some (result : keepCheaper est best candidate = some entry) :
    best = some entry ∨ entry = candidate := by
  unfold keepCheaper at result
  split at result
  · exact .inl result
  · cases result
    exact .inr rfl

end

theorem considerNext_fresh (predicates : List (TypedExpr × RelationMask)) (candidates : List (σ × Nat))
    (result : candidates.foldl (considerNext est predicates mask) none = some choice) :
    mask &&& Mask.bit choice.index = 0#32 := by
  refine foldlRecOn (motive := fun best : Option NextChoice => ∀ choice, best = some choice →
    mask &&& Mask.bit choice.index = 0#32) candidates _ (by simp) ?_ choice result
  intro best before candidate _ choice result
  unfold considerNext at result
  simp only at result
  split at result
  · exact before choice result
  · rename_i untouched
    have apart : mask &&& Mask.bit candidate.2 = 0#32 := by simpa using untouched
    cases best with
    | none =>
      cases result
      exact apart
    | some b =>
      rcases ite_eq_iff.mp result with ⟨-,taken⟩ | ⟨-,earlier⟩
      · cases taken
        exact apart
      · exact before choice earlier

section
variable (small : graph.relations.length ≤ 32)
include small

theorem Built.bound (built : Built graph mask plan)
    (found : mask.getLsbD i = true) : i < graph.relations.length := by
  induction built with
  | @relation k _ listed =>
    have bound := (List.getElem?_eq_some_iff.mp listed).1
    rw [getLsbD_bit k i (by omega)] at found
    simp only [decide_eq_true_eq] at found
    omega
  | join _ _ _ ihLeft ihRight =>
    rw [BitVec.getLsbD_or, Bool.or_eq_true] at found
    exact found.elim ihLeft ihRight

theorem leftDeepSteps_built (steps : Nat) (built : Built graph mask plan)
    (result : leftDeepSteps est graph relStats steps plan mask = some final) :
    ∃ whole, Built graph whole final ∧ Mask.size whole = Mask.size mask + steps := by
  induction steps generalizing plan mask with
  | zero =>
    cases result
    exact ⟨mask,built,rfl⟩
  | succ steps ih =>
    rw [leftDeepSteps] at result
    split at result
    · cases result
    · rename_i choice chosen
      split at result
      · cases result
      · rename_i next found
        have apart := considerNext_fresh est graph.predicates _ chosen
        have bound := (List.getElem?_eq_some_iff.mp found).1
        obtain ⟨whole,built',size⟩ := ih (built.join (.relation found) apart) result
        have fresh : mask.getLsbD choice.index = false := by
          rw [BitVec.and_comm] at apart
          apply Mask.disjoint_bits apart
          simp [getLsbD_bit choice.index choice.index (show choice.index < 32 by omega)]
        rw [Mask.size_insert (by omega) fresh] at size
        exact ⟨whole,built',by omega⟩

theorem leftDeepJoinReorder_built (result : leftDeepJoinReorder est graph = some plan) :
    ∃ whole, Built graph whole plan ∧ ∀ i < graph.relations.length, whole.getLsbD i = true := by
  unfold leftDeepJoinReorder at result
  simp only at result
  split at result
  · cases result
  · rename_i many
    split at result
    · cases result
    · rename_i start found
      have bound := (List.getElem?_eq_some_iff.mp found).1
      obtain ⟨whole,built,size⟩ := leftDeepSteps_built est small _ (.relation found) result
      rw [size_bit (by omega)] at size
      exact ⟨whole,built,fun i => Mask.full_of_size (fun j bit => built.bound small bit) (by omega)⟩

end

variable [CaseFolding]

/-- Relations that can be put together by joins that each have an equality of
two columns among their connecting predicates. -/
inductive Connectable (predicates : List (TypedExpr × RelationMask)) (n : Nat) :
    RelationMask → Prop
  | relation {i : Nat} (bound : i < n) : Connectable predicates n (Mask.bit i)
  | join {left right : RelationMask} (first : Connectable predicates n left)
    (second : Connectable predicates n right) (apart : left &&& right = 0#32)
    (equality : (findConnectingPredicates predicates left right).any hasEquijoinPredicate = true) :
    Connectable predicates n (left ||| right)

theorem hasEquijoinPredicate_combineAnd (e : TypedExpr) (rest : List TypedExpr) :
    hasEquijoinPredicate (combineAnd e rest) = (e :: rest).any hasEquijoinPredicate := by
  induction rest generalizing e with
  | nil => simp [combineAnd]
  | cons next rest ih =>
    rw [combineAnd, hasEquijoinPredicate, ih]
    rfl

theorem combineConditions_some (combined : combineConditions es = some condition) :
    hasEquijoinPredicate condition = es.any hasEquijoinPredicate ∧
      ∀ l r, joinParts l r es = .join l r .inner (some condition) := by
  unfold joinParts
  rw [combined]
  cases es with
  | nil => cases combined
  | cons e rest =>
    cases combined
    exact ⟨hasEquijoinPredicate_combineAnd e rest,fun _ _ => rfl⟩

def Found (graph : JoinGraph) (mask : RelationMask) (plan : LogicalPlan) : Prop :=
  Built graph mask plan ∧ Connectable graph.predicates graph.relations.length mask

theorem dpBipartition_found (holds : MemoHolds (Found graph) memo) (inside : Mask.Within left subset)
    (before : ∀ entry, best = some entry → Found graph subset entry.plan) (entry : DpEntry σ κ)
    (result : dpBipartition est graph.predicates memo subset best left = some entry) :
    Found graph subset entry.plan := by
  unfold dpBipartition at result
  simp only at result
  split at result
  · exact before entry result
  split at result
  · exact before entry result
  rename_i condition combined
  obtain ⟨equalities,join⟩ := combineConditions_some combined
  split at result
  · rename_i equality
    split at result
    · rename_i l r foundLeft foundRight
      obtain ⟨builtLeft,connectLeft⟩ := holds _ _ foundLeft
      obtain ⟨builtRight,connectRight⟩ := holds _ _ foundRight
      have apart := Mask.complement_apart subset left
      have connected := connectLeft.join connectRight apart (equalities ▸ equality)
      have joined := builtLeft.join builtRight apart
      have turned := builtRight.join builtLeft (by rw [BitVec.and_comm]; exact apart)
      rw [BitVec.or_comm, findConnectingPredicates_comm] at turned
      rw [Mask.complement_union inside] at connected joined turned
      rw [join] at joined turned
      rcases keepCheaper_some est result with earlier | rfl
      · rcases keepCheaper_some est earlier with earliest | rfl
        · exact before entry earliest
        · exact ⟨joined,connected⟩
      · exact ⟨turned,connected⟩
    · exact before entry result
  · exact before entry result

theorem dpSubset_found (holds : MemoHolds (Found graph) memo) (subset : RelationMask) :
    MemoHolds (Found graph) (dpSubset est graph.predicates memo subset) := by
  have best := foldlRecOn (motive := fun best : Option (DpEntry σ κ) => ∀ entry, best = some entry →
      Found graph subset entry.plan) (Mask.properSubmasks subset)
    (b := none) (dpBipartition est graph.predicates memo subset) (by simp)
    fun best before left member => dpBipartition_found est holds (Mask.within_of_mem_properSubmasks member) before
  unfold dpSubset
  split
  · exact holds.enter (best _ ‹_›)
  · exact holds

theorem dpJoinReorder_found (result : dpJoinReorder est graph = some plan) :
    Found graph (fullMask graph.relations.length) plan := by
  unfold dpJoinReorder at result
  simp only at result
  split at result
  · cases result
  · obtain ⟨entry,found,rfl⟩ := Option.map_eq_some_iff.mp result
    refine foldlRecOn (motive := MemoHolds (Found graph)) _ _ (initialMemo_holds est _ fun i plan here =>
      ⟨.relation here,.relation (List.getElem?_eq_some_iff.mp here).1⟩) ?_ _ entry found
    intro memo holds size _
    exact foldlRecOn (motive := MemoHolds (Found graph)) _ _ holds
      fun memo holds subset _ => dpSubset_found est holds subset

theorem greedyStep_built {state : DpTable σ κ × List RelationMask} (group : RelationMask) (i : Nat)
    (holds : MemoHolds (Built graph) state.1) :
    MemoHolds (Built graph) (greedyStep est graph.predicates group state i).1 := by
  unfold greedyStep
  split
  · exact holds
  · rename_i untouched
    have apart : group &&& Mask.bit i = 0#32 := by simpa using untouched
    simp only
    split
    · rename_i g a foundGroup foundAtom
      split
      · exact holds
      · refine holds.enter ?_
        have first := holds _ _ foundGroup
        have second := holds _ _ foundAtom
        unfold greedyCandidate
        split
        · exact first.join second apart
        · have joined := second.join first (by rw [BitVec.and_comm]; exact apart)
          rwa [BitVec.or_comm, findConnectingPredicates_comm] at joined
    · exact holds

theorem greedyLevels_built (levels : Nat) (previous : List RelationMask) (holds : MemoHolds (Built graph) memo) :
    MemoHolds (Built graph) (greedyLevels est graph levels memo previous) := by
  induction levels generalizing memo previous with
  | zero => exact holds
  | succ levels ih =>
    have level : MemoHolds (Built graph) (greedyLevel est graph memo previous).1 :=
      foldlRecOn (motive := fun state : DpTable σ κ × List RelationMask => MemoHolds (Built graph) state.1) _ _
        holds fun state holds group _ => foldlRecOn
          (motive := fun state : DpTable σ κ × List RelationMask => MemoHolds (Built graph) state.1) _ _ holds
          fun state holds i _ => greedyStep_built est group i holds
    rw [greedyLevels]
    split
    · exact level
    · exact ih _ level

theorem greedyJoinReorder_built (result : greedyJoinReorder est graph = some plan) :
    Built graph (fullMask graph.relations.length) plan := by
  unfold greedyJoinReorder at result
  simp only at result
  split at result
  · cases result
  · obtain ⟨entry,found,rfl⟩ := Option.map_eq_some_iff.mp result
    exact greedyLevels_built est _ _ (initialMemo_holds est _ fun i plan here => .relation here) _ _ found

/-- Whatever the estimates say, a plan that comes back joins all relations; the exhaustive
search has put them together by joins with equalities. -/
theorem reorderGraph_built (result : reorderGraph est graph = some plan)
    (small : graph.relations.length ≤ 32) :
    (∃ whole, Built graph whole plan ∧ ∀ i < graph.relations.length, whole.getLsbD i = true) ∧
      (graph.relations.length ≤ 12 →
        Connectable graph.predicates graph.relations.length (fullMask graph.relations.length)) := by
  have full : graph.relations.length < 32 → ∀ i < graph.relations.length,
      (fullMask graph.relations.length).getLsbD i = true := by
    intro less i bound
    rw [fullMask, Mask.getLsbD_low less]
    simpa using bound
  unfold reorderGraph at result
  simp only at result
  split at result
  · obtain ⟨built,connected⟩ := dpJoinReorder_found est result
    exact ⟨⟨_,built,full (by omega)⟩,fun _ => connected⟩
  · rename_i many
    refine ⟨?_,fun few => absurd few many⟩
    split at result
    · rcases Option.or_eq_some_iff.mp result with greedy | ⟨-,deep⟩
      · exact ⟨_,greedyJoinReorder_built est greedy,full (by omega)⟩
      · exact leftDeepJoinReorder_built est small deep
    · exact leftDeepJoinReorder_built est small result

end NovaRocks
