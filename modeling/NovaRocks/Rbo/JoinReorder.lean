import NovaRocks.Rbo.JoinGraph

/-!
Reordering chains of inner and cross joins. Up to twelve relations every
bipartition is tried, up to sixteen the chain grows one relation at a time from
all pairs, beyond that it is left deep. When no order is found the joins stay
and only their sides may be swapped. Estimates decide between orders; nothing
is assumed about them.
-/
namespace NovaRocks
open Relational List
open Mask (bit)
open LogicalPlan (join)
variable [CaseFolding]

/-- The estimator's answers for statistics `σ` and costs `κ`, the comparisons
made on them, and the order in which a hash set hands out its elements. -/
structure Estimates (σ κ : Type) where
  statistics : LogicalPlan → σ
  operatorCost : LogicalPlan → σ → List σ → κ
  add : κ → κ → κ
  tenfold : κ → κ
  atMost : κ → κ → Bool
  rowsAtLeast : σ → σ → Bool
  rowsCompare : σ → σ → Ordering
  rowCount : σ → Nat
  estimateSize : LogicalPlan → Nat
  hashOrder : List RelationMask → List RelationMask
  hashOrder_perm : ∀ masks, (hashOrder masks).Perm masks

structure DpEntry (σ κ : Type) where
  plan : LogicalPlan
  stats : σ
  cumulativeCost : κ

abbrev DpTable (σ κ : Type) := RelationMask → Option (DpEntry σ κ)

section
variable (est : Estimates σ κ)

def relationEntry (plan : LogicalPlan) : DpEntry σ κ :=
  let stats := est.statistics plan
  ⟨plan, stats, est.operatorCost plan stats []⟩

def initialMemo (relations : List LogicalPlan) : DpTable σ κ :=
  relations.zipIdx.foldl (fun memo (plan, i) =>
    Function.update memo (bit i) (some (relationEntry est plan))) fun _ => none

/-- A candidate replaces the best so far unless that costs no more. -/
def keepCheaper (best : Option (DpEntry σ κ)) (candidate : DpEntry σ κ) : Option (DpEntry σ κ) :=
  if best.any fun b => est.atMost b.cumulativeCost candidate.cumulativeCost then best
  else some candidate

def tryJoinOrientation (left right : DpEntry σ κ) (condition : TypedExpr)
    (best : Option (DpEntry σ κ)) : Option (DpEntry σ κ) :=
  let kindForCost := if hasEquijoinPredicate condition then JoinKind.inner else .cross
  let plan := join left.plan right.plan .inner (some condition)
  let stats := est.statistics plan
  let own := est.operatorCost (.join left.plan right.plan kindForCost (some condition)) stats
    [left.stats, right.stats]
  keepCheaper est best
    ⟨plan, stats, est.add (est.add left.cumulativeCost right.cumulativeCost) own⟩

section
variable (predicates : List (TypedExpr × RelationMask))

/-- One bipartition of `subset`; both orientations are tried. -/
def dpBipartition (memo : DpTable σ κ) (subset : RelationMask) (best : Option (DpEntry σ κ))
    (left : RelationMask) : Option (DpEntry σ κ) :=
  let right := subset &&& ~~~left
  if right = 0#32 ∨ right < left then best
  else
    match combineConditions (findConnectingPredicates predicates left right) with
    | none => best
    | some condition =>
      if hasEquijoinPredicate condition then
        match memo left, memo right with
        | some l, some r =>
          tryJoinOrientation est r l condition (tryJoinOrientation est l r condition best)
        | _, _ => best
      else best

def dpSubset (memo : DpTable σ κ) (subset : RelationMask) : DpTable σ κ :=
  match (Mask.properSubmasks subset).foldl (dpBipartition est predicates memo subset) none with
  | some entry => Function.update memo subset (some entry)
  | none => memo

def fullMask (n : Nat) : RelationMask :=
  bit n - 1#32

def dpJoinReorder (graph : JoinGraph) : Option LogicalPlan :=
  let n := graph.relations.length
  if 12 < n then none
  else
    let memo := (List.range' 2 (n - 1)).foldl (fun memo size =>
      (Mask.kSubmasks (fullMask n) size).foldl (dpSubset est graph.predicates) memo)
        (initialMemo est graph.relations)
    (memo (fullMask n)).map DpEntry.plan

/-- The entry for a group and one more relation, the larger of them probing. -/
def greedyCandidate (connecting : List TypedExpr) (group atom : DpEntry σ κ) : DpEntry σ κ :=
  let condition := combineConditions connecting
  let sides := if est.rowsAtLeast group.stats atom.stats then (group, atom) else (atom, group)
  let plan := joinParts sides.1.plan sides.2.plan connecting
  let stats := est.statistics plan
  let nestLoop := !condition.any hasEquijoinPredicate
  let own := est.operatorCost
    (.join sides.1.plan sides.2.plan (if nestLoop then .cross else .inner) condition) stats
    [sides.1.stats, sides.2.stats]
  let total := est.add (est.add sides.1.cumulativeCost sides.2.cumulativeCost) own
  ⟨plan, stats, if connecting.isEmpty then est.tenfold total else total⟩

def greedyStep (group : RelationMask) (state : DpTable σ κ × List RelationMask) (i : Nat) :
    DpTable σ κ × List RelationMask :=
  if group &&& bit i != 0#32 then state
  else
    let combined := group ||| bit i
    let connecting := (collectJoinPredicates predicates group (bit i)).map Prod.fst
    match state.1 group, state.1 (bit i) with
    | some g, some a =>
      let candidate := greedyCandidate est connecting g a
      if (state.1 combined).any fun b => est.atMost b.cumulativeCost candidate.cumulativeCost then
        state
      else (Function.update state.1 combined (some candidate), state.2.insert combined)
    | _, _ => state

def greedyLevel (graph : JoinGraph) (memo : DpTable σ κ) (previous : List RelationMask) :
    DpTable σ κ × List RelationMask :=
  previous.foldl (fun state group =>
    (List.range graph.relations.length).foldl (greedyStep est graph.predicates group) state)
      (memo, [])

def greedyLevels (graph : JoinGraph) : Nat → DpTable σ κ → List RelationMask → DpTable σ κ
  | 0, memo, _ => memo
  | levels + 1, memo, previous =>
    let state := greedyLevel est graph memo previous
    if state.2.isEmpty then state.1
    else greedyLevels graph levels state.1 (est.hashOrder state.2)

def greedyJoinReorder (graph : JoinGraph) : Option LogicalPlan :=
  let n := graph.relations.length
  if n < 2 ∨ 16 < n ∨ graph.predicates.isEmpty = true then none
  else
    let memo := greedyLevels est graph (n - 1) (initialMemo est graph.relations)
      ((List.range n).map bit)
    (memo (fullMask n)).map DpEntry.plan

/-- The last of the relations with the most rows. -/
def startIndex (relStats : List σ) : Nat :=
  (relStats.zipIdx.foldl (fun best (s, i) =>
    match best with
    | some (b, k) => if est.rowsCompare b s = .gt then some (b, k) else some (s, i)
    | none => some (s, i)) none).elim 0 Prod.snd

structure NextChoice where
  index : Nat
  hasEqui : Bool
  rowCount : Nat

def considerNext (mask : RelationMask) (best : Option NextChoice) (candidate : σ × Nat) : Option NextChoice :=
  let atom := bit candidate.2
  if mask &&& atom != 0#32 then best
  else
    let hasEqui := !(collectJoinPredicates predicates mask atom).isEmpty
    let choice := NextChoice.mk candidate.2 hasEqui (est.rowCount candidate.1)
    match best with
    | none => some choice
    | some b =>
      let better := match hasEqui, b.hasEqui with
        | true, false => true
        | false, true => false
        | _, _ => decide (choice.rowCount < b.rowCount)
      if better then some choice else some b

end

/-- The source keeps the set of joined relations twice, under two names. -/
def leftDeepSteps (graph : JoinGraph) (relStats : List σ) :
    Nat → LogicalPlan → RelationMask → Option LogicalPlan
  | 0, plan, _ => some plan
  | steps + 1, plan, mask =>
    match relStats.zipIdx.foldl (considerNext est graph.predicates mask) none with
    | none => none
    | some choice =>
      match graph.relations[choice.index]? with
      | none => none
      | some next =>
        let atom := bit choice.index
        let connecting := (collectJoinPredicates graph.predicates mask atom).map Prod.fst
        leftDeepSteps graph relStats steps (joinParts plan next connecting) (mask ||| atom)

def leftDeepJoinReorder (graph : JoinGraph) : Option LogicalPlan :=
  let n := graph.relations.length
  if n < 2 ∨ 32 < n then none
  else
    let relStats := graph.relations.map est.statistics
    let start := startIndex est relStats
    match graph.relations[start]? with
    | none => none
    | some plan => leftDeepSteps est graph relStats (n - 1) plan (bit start)

def reorderGraph (graph : JoinGraph) : Option LogicalPlan :=
  let n := graph.relations.length
  if n ≤ 12 then dpJoinReorder est graph
  else if n ≤ 16 then
    (greedyJoinReorder est graph).or (leftDeepJoinReorder est graph)
  else leftDeepJoinReorder est graph

mutual
/-- Only swaps the sides of inner and cross joins whose right side is large. -/
def reorderJoinsHeuristic : LogicalPlan → LogicalPlan
  | .join left right kind condition =>
    let l := reorderJoinsHeuristic left
    let r := reorderJoinsHeuristic right
    if kind.reorders && decide (est.estimateSize l * 2 < est.estimateSize r) then
      .join r l kind condition
    else .join l r kind condition
  | .filter input predicate => .filter (reorderJoinsHeuristic input) predicate
  | .project input items => .project (reorderJoinsHeuristic input) items
  | .aggregate input groupBy aggregates columns =>
    .aggregate (reorderJoinsHeuristic input) groupBy aggregates columns
  | .sort input items => .sort (reorderJoinsHeuristic input) items
  | .limit input limit offset => .limit (reorderJoinsHeuristic input) limit offset
  | .window input windowExprs columns =>
    .window (reorderJoinsHeuristic input) windowExprs columns
  | .union inputs all => .union (reorderJoinsHeuristicList inputs) all
  | .intersect inputs => .intersect (reorderJoinsHeuristicList inputs)
  | .except inputs => .except (reorderJoinsHeuristicList inputs)
  | .subqueryAlias input aliasName columns =>
    .subqueryAlias (reorderJoinsHeuristic input) aliasName columns
  | .repeat input info => .repeat (reorderJoinsHeuristic input) info
  | plan => plan
def reorderJoinsHeuristicList : List LogicalPlan → List LogicalPlan
  | [] => []
  | p :: rest => reorderJoinsHeuristic p :: reorderJoinsHeuristicList rest
end

end

omit [CaseFolding] in
theorem sizeOf_relation (member : relation ∈ (flattenInnerJoins plan).1) : sizeOf relation ≤ sizeOf plan := by
  fun_induction flattenInnerJoins plan with
  | case1 left right kind condition reorders l r ihLeft ihRight =>
    simp only [mem_append] at member
    rcases member with inLeft | inRight
    · have := ihLeft inLeft
      simp only [join.sizeOf_spec]
      omega
    · have := ihRight inRight
      simp only [join.sizeOf_spec]
      omega
  | case3 left right kind condition predicate reorders chain ih =>
    have := ih member
    simp only [LogicalPlan.filter.sizeOf_spec]
    omega
  | _ => simp_all

omit [CaseFolding] in
theorem sizeOf_relation_join (reorders : kind.reorders = true)
    (member : relation ∈ (flattenInnerJoins (.join left right kind condition)).1) :
    sizeOf relation < sizeOf (join left right kind condition) := by
  simp only [flattenInnerJoins, reorders, if_true, mem_append] at member
  simp only [join.sizeOf_spec]
  rcases member with inLeft | inRight
  · have := sizeOf_relation inLeft
    omega
  · have := sizeOf_relation inRight
    omega

theorem extractJoinGraph_relations {graph : JoinGraph} (extracted : extractJoinGraph plan = some graph) :
    graph.relations = (flattenInnerJoins plan).1 := by
  unfold extractJoinGraph at extracted
  simp only at extracted
  split at extracted
  · cases extracted
  · cases extracted
    rfl

section
variable {σ κ : Type} (est : Estimates σ κ)

def reorderJoinsCbo : LogicalPlan → LogicalPlan
  | .join left right kind condition =>
    if _ : kind.reorders = true then
      let fullPlan := join left right kind condition
      match _ : extractJoinGraph fullPlan with
      | some graph =>
        let optimized := graph.relations.attach.map fun ⟨r, _⟩ => reorderJoinsCbo r
        (reorderGraph est ⟨optimized, graph.predicates⟩).getD (reorderJoinsHeuristic est fullPlan)
      | none => reorderJoinsHeuristic est fullPlan
    else .join (reorderJoinsCbo left) (reorderJoinsCbo right) kind condition
  | .filter input predicate => .filter (reorderJoinsCbo input) predicate
  | .project input items => .project (reorderJoinsCbo input) items
  | .aggregate input groupBy aggregates columns =>
    .aggregate (reorderJoinsCbo input) groupBy aggregates columns
  | .sort input items => .sort (reorderJoinsCbo input) items
  | .limit input limit offset => .limit (reorderJoinsCbo input) limit offset
  | .window input windowExprs columns => .window (reorderJoinsCbo input) windowExprs columns
  | .union inputs all => .union (inputs.attach.map fun ⟨p, _⟩ => reorderJoinsCbo p) all
  | .intersect inputs => .intersect (inputs.attach.map fun ⟨p, _⟩ => reorderJoinsCbo p)
  | .except inputs => .except (inputs.attach.map fun ⟨p, _⟩ => reorderJoinsCbo p)
  | .subqueryAlias input aliasName columns =>
    .subqueryAlias (reorderJoinsCbo input) aliasName columns
  | .repeat input info => .repeat (reorderJoinsCbo input) info
  | .cteAnchor cteId produce consumer =>
    .cteAnchor cteId (reorderJoinsCbo produce) (reorderJoinsCbo consumer)
  | .cteProduce cteId input columns => .cteProduce cteId (reorderJoinsCbo input) columns
  | plan => plan
termination_by plan => sizeOf plan
decreasing_by
  · rename_i member
    rw [extractJoinGraph_relations ‹_›] at member
    exact sizeOf_relation_join ‹_› member
  all_goals simp_wf
  all_goals first | omega | (have smaller := sizeOf_lt_of_mem ‹_ ∈ inputs›; omega)

end

end NovaRocks
