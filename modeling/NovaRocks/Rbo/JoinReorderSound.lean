import NovaRocks.Rbo.JoinEnumeration
import NovaRocks.Rbo.JoinTrees

/-!
When the reordering keeps the rows. A rebuilt plan returns the combinations of rows that
meet the predicates touching at least two relations: each of these is attached where its
relations first meet. A conjunct that touches one relation, or none, connects nothing and
is attached nowhere. So the others have to imply it, unless no order is found.
-/
namespace NovaRocks
open Relational List
open LogicalPlan (join)
section
variable [CaseFolding]

/-- The positions of the relations of a part of a chain. -/
def partAt (base : Nat) (plan : LogicalPlan) : List Nat :=
  range' base (flattenInnerJoins plan).1.length

/-- The conjuncts have their meaning where they stand in the chain. -/
def ChainPlaced (c : JoinInputs) (base : Nat) : LogicalPlan → Prop
  | .join left right kind condition =>
    let next := base + (flattenInnerJoins left).1.length
    kind.reorders = true → ChainPlaced c base left ∧ ChainPlaced c next right ∧
      ∀ e ∈ condition.toList.flatMap splitAnd, c.Placed (partAt base left) (partAt next right) e
  | .filter (.join left right kind condition) predicate =>
    kind.reorders = true → ChainPlaced c base (.join left right kind condition) ∧
      ∀ e ∈ splitAnd predicate, c.ReadOnce (partAt base (.join left right kind condition)) e
  | _ => True

/-- The mask of a predicate has the relations it reads, and no others for a USING key. -/
def MaskFits (c : JoinInputs) (p : TypedExpr × RelationMask) : Prop :=
  c.ReadOnce (Mask.members p.2) p.1 ∨ ∃ a b, c.UsingKey p.1 a b ∧ Mask.members p.2 ⊆ [a, b]

/-- A rewrite that at most swaps the sides of the joins of a chain. -/
structure Swaps (f : LogicalPlan → LogicalPlan) : Prop where
  join : ∀ l r kind condition, kind.reorders = true →
    f (.join l r kind condition) = .join (f l) (f r) kind condition ∨
      f (.join l r kind condition) = .join (f r) (f l) kind condition
  filter : ∀ p e, f (.filter p e) = .filter (f p) e

section
variable {c : JoinInputs} {keep : QualifiedRef → Prop} {graph : JoinGraph} {mask : RelationMask}

theorem Swaps.combines (swaps : Swaps f)
    (kept : ∀ relation ∈ c.relations, Kept c.toDatabase keep (f relation) relation)
    (base : Nat) (plan : LogicalPlan) (part : PartAt c.relations base plan) (placed : ChainPlaced c base plan)
    (seen : ∀ e ∈ (flattenInnerJoins plan).2, ∀ r ∈ reads c.interp e, keep r) :
    c.Combines keep (partAt base plan) (flattenInnerJoins plan).2 (f plan) := by
  unfold partAt
  fun_induction flattenInnerJoins plan generalizing base with
  | case1 l r kind condition reorders chainL chainR ihl ihr =>
    obtain ⟨partL,partR⟩ := part.sides reorders
    obtain ⟨placedL,placedR,here⟩ := placed reorders
    simp only [forall_mem_append] at seen
    have first := ihl base partL placedL seen.1.1
    have second := ihr _ partR placedR seen.1.2
    have apart : ∀ k ∈ partAt base l, k ∉ partAt (base + chainL.1.length) r := by
      simp only [partAt, mem_range'_1, chainL]
      omega
    have conjuncts : condition.toList.flatMap joinConjuncts =
        (condition.toList.flatMap splitAnd).flatMap joinConjuncts := by
      cases condition <;> simp [joinConjuncts_splitAnd]
    rw [length_append, ← range'_append_1]
    rcases swaps.join l r kind condition reorders with same | swapped
    · rw [same]
      exact first.join second apart reorders conjuncts fun e member => ⟨here e member,seen.2 e member⟩
    · rw [swapped]
      have turned := second.join first (fun k inRight inLeft => apart k inLeft inRight) reorders conjuncts
        fun e member => ⟨(here e member).symm,seen.2 e member⟩
      exact turned.congr (nodup_append_comm.mp turned.nodup) (fun _ => perm_append_comm.mem_iff)
        fun _ => (perm_append_comm.append_right _).mem_iff
  | case3 l r kind condition predicate reorders chain ih =>
    obtain ⟨below,here⟩ := placed reorders
    simp only [forall_mem_append] at seen
    rw [PartAt, flattenInnerJoins, if_pos reorders] at part
    rw [swaps.filter]
    exact (ih base part below seen.2).filter fun e member => ⟨here e member,seen.1 e member⟩
  | case2 | case4 | case5 =>
    refine .leaf (part 0 _ ?_) (kept _ (mem_of_getElem? (part 0 _ ?_)))
    all_goals simp_all [flattenInnerJoins]

/-- A plan of the enumerations has every predicate at the join where its relations first meet. -/
theorem Built.combines (few : graph.relations.length ≤ 32)
    (relations : ∀ (k : Nat) q, graph.relations[k]? = some q →
      ∃ relation, c.relations[k]? = some relation ∧ Kept c.toDatabase keep q relation)
    (masks : ∀ p ∈ graph.predicates, MaskFits c p ∧ ∀ r ∈ reads c.interp p.1, keep r)
    (built : Built graph mask plan) : c.Combines keep (Mask.members mask)
      ((graph.predicates.filter fun p => joinsWithin mask p.2).map Prod.fst) plan := by
  induction built with
  | @relation k q found =>
    obtain ⟨relation,here,kept⟩ := relations k q found
    have bit := fun j => Mask.getLsbD_bit k j (show k < 32 by have := (List.getElem?_eq_some_iff.mp found).1; omega)
    refine (JoinInputs.Combines.leaf here kept).congr (Mask.nodup_members _) (by simp [bit]) ?_
    simp only [joinsWithin_iff, Mask.Within, bit, mem_map, mem_filter]
    grind
  | @join left right l r builtL builtR apart first second =>
    have joined : c.Combines keep (Mask.members left ++ Mask.members right)
        (_ ++ _ ++ findConnectingPredicates graph.predicates left right)
        (joinParts l r (findConnectingPredicates graph.predicates left right)) :=
      first.join second (fun k => by simpa using Mask.disjoint_bits apart) (by split <;> rfl) ?_ fun e member => ?_
    · refine joined.congr (Mask.nodup_members _) (by simp) fun e => ?_
      simp only [findConnectingPredicates, collectJoinPredicates, mem_append, mem_map, mem_filter,
        joinsWithin_union apart]
      grind
    · cases findConnectingPredicates graph.predicates left right <;>
        simp [combineConditions, joinConjuncts_combineAnd]
    · obtain ⟨p,inside,rfl⟩ := mem_map.mp member
      obtain ⟨listed,connects⟩ := mem_filter.mp inside
      obtain ⟨⟨i,inMask,inLeft⟩,⟨j,inMask',inRight⟩,within⟩ := connects_iff.mp connects
      refine ⟨?_,(masks p listed).2⟩
      rcases (masks p listed).1 with once | ⟨a,b,key,only⟩
      · refine .inl fun r read => (once r read).imp fun k home => ⟨?_,home.2⟩
        simpa using within k (Mask.mem_members.mp home.1)
      · have other : i ≠ j := by
          rintro rfl
          simp [Mask.disjoint_bits apart inLeft] at inRight
        have first := only (Mask.mem_members.mpr inMask)
        have second := only (Mask.mem_members.mpr inMask')
        refine .inr ⟨a,b,key,?_⟩
        simp only [Mask.mem_members]
        grind

theorem expandPredicate_cases (e : TypedExpr) : expandPredicate e = [e] ∨ ∃ common rest,
    factorCommonEq isAnyEq e = (common, rest) ∧ common ≠ [] ∧ expandPredicate e = common ++ rest.toList := by
  unfold expandPredicate factorCommonEqFromOrForReorder
  cases factorCommonEq isAnyEq e with
  | mk common rest => cases common <;> simp

theorem expandPredicate_reads (member : d ∈ expandPredicate e) (read : r ∈ reads i d) : r ∈ reads i e := by
  rcases expandPredicate_cases e with same | ⟨common,rest,factored,found,expanded⟩
  · rw [same, mem_singleton] at member
    rwa [member] at read
  · rw [expanded] at member
    exact factorCommonEq_refs (some i.label) factored found member read

end

namespace JoinInputs
variable (c : JoinInputs)

def predicates : List (TypedExpr × RelationMask) :=
  (c.conjuncts.flatMap expandPredicate).map fun e =>
    (e, relationMask (c.relations.map collectQualifiedOutputColumns) e)

def joining : List TypedExpr :=
  (c.predicates.filter fun p => 2 ≤ Mask.size p.2).map Prod.fst

/-- The plan is the chain of these relations and conjuncts. The masks have room for all
relations, and the names of the conjuncts send each to the same relations in every order. -/
structure Chains (plan : LogicalPlan) : Prop where
  isJoin : ∃ l r kind condition, plan = .join l r kind condition ∧ kind.reorders = true
  flat : flattenInnerJoins plan = (c.relations, c.conjuncts)
  few : c.relations.length ≤ 32
  placed : ChainPlaced c 0 plan
  masks : ∀ p ∈ c.predicates, MaskFits c p

/-- A combination of rows that meets the predicates touching two relations meets all. -/
def OthersImplied : Prop :=
  ∀ f ∈ c.combinations (range c.relations.length), c.joining.all (c.meets f) = true →
    c.conjuncts.all (c.meets f) = true

/-- Where two relations answer to a name of interest they give it the same value. -/
def NamesSettled (keep : QualifiedRef → Prop) : Prop :=
  ∀ f ∈ c.combinations (range c.relations.length), c.conjuncts.all (c.meets f) = true →
    ∀ r, keep r → ∀ j ∈ c.homes r, ∀ k ∈ c.homes r, (f j).look r = (f k).look r

/-- No order of few relations has an equality of columns at every join. -/
def Unordered : Prop :=
  c.relations.length ≤ 12 ∧ ¬ Connectable c.predicates c.relations.length (fullMask c.relations.length)

/-- The rewrite keeps of each relation what is read in the chain or above it. -/
def RelationsKept (keep : QualifiedRef → Prop) (f : LogicalPlan → LogicalPlan) : Prop :=
  ∀ relation ∈ c.relations, Kept c.toDatabase (Needed c.interp c.conjuncts keep) (f relation) relation

/-- The plan joins all relations under the predicates `on`. -/
def JoinsAll (keep : QualifiedRef → Prop) (on : List TypedExpr) (plan : LogicalPlan) : Prop :=
  c.Combines (Needed c.interp c.conjuncts keep) (range c.relations.length) on plan

end JoinInputs

omit [CaseFolding] in
theorem flattenInnerJoins_ne_nil (plan : LogicalPlan) : (flattenInnerJoins plan).1 ≠ [] := by
  fun_induction flattenInnerJoins plan <;> simp_all +zetaDelta

section
variable {c : JoinInputs} {keep : QualifiedRef → Prop}

open JoinInputs (meets_once)

/-- Two plans whose predicates accept the same combinations. -/
theorem kept_of_joinsAll (first : c.JoinsAll keep on q) (second : c.JoinsAll keep c.conjuncts p)
    (settled : c.NamesSettled keep) (same : ∀ f ∈ c.combinations (range c.relations.length),
      on.all (c.meets f) = c.conjuncts.all (c.meets f)) : Kept c.toDatabase keep q p where
  answers := funext fun r => Bool.eq_iff_iff.mpr ((first.answers r).trans (second.answers r).symm)
  rows := by
    have rows := first.rows
    rw [filter_congr same] at rows
    refine rows.meet (second.rows.imp fun row f member shown => And.intro (mem_filter.mp member) shown) ?_
    rintro a b f shown ⟨⟨member,met⟩,shown'⟩ r mine found
    obtain ⟨j,home,-,look⟩ := shown r (.inl mine) found
    obtain ⟨k,home',-,look'⟩ := shown' r (.inl mine) ((second.answers r).mpr ((first.answers r).mp found))
    rw [look, look', settled f member met r mine j home k home']

variable (est : Estimates σ κ)

theorem reorderJoinsCbo_chain
    (isJoin : ∃ l r kind condition, plan = .join l r kind condition ∧ kind.reorders = true)
    (flat : flattenInnerJoins plan = (c.relations, c.conjuncts)) : reorderJoinsCbo est plan =
      (reorderGraph est ⟨c.relations.map (reorderJoinsCbo est), c.predicates⟩).getD
        (reorderJoinsHeuristic est plan) := by
  obtain ⟨l,r,kind,condition,rfl,reorders⟩ := isJoin
  have extracted : extractJoinGraph (.join l r kind condition) = some ⟨c.relations, c.predicates⟩ := by
    have first := length_pos_of_ne_nil (flattenInnerJoins_ne_nil l)
    have second := length_pos_of_ne_nil (flattenInnerJoins_ne_nil r)
    have many := congrArg (fun chain => chain.1.length) flat
    simp only [flattenInnerJoins, reorders, if_true, length_append] at many
    rw [extractJoinGraph, flat, if_neg (show ¬ c.relations.length < 2 by omega)]
    rfl
  rw [reorderJoinsCbo]
  simp only [reorders, ↓reduceDIte]
  split
  · rename_i found same
    cases extracted.symm.trans same
    simp only [map_attach_eq_pmap, pmap_eq_map]
  · rename_i none
    cases extracted.symm.trans none

variable (chain : c.Chains plan)
include chain

theorem JoinInputs.Chains.swapped (swaps : Swaps f) (kept : c.RelationsKept keep f) :
    c.JoinsAll keep c.conjuncts (f plan) := by
  have tree := swaps.combines kept 0 plan (by simp [PartAt, chain.flat]) chain.placed ?_
  · rwa [partAt, chain.flat, ← range_eq_range'] at tree
  · rw [chain.flat]
    exact fun e member r read => .inr ⟨e,member,read⟩

theorem JoinInputs.Chains.original (keep : QualifiedRef → Prop) : c.JoinsAll keep c.conjuncts plan :=
  chain.swapped (f := id) ⟨fun _ _ _ _ _ => .inl rfl,fun _ _ => rfl⟩ fun relation _ => .refl relation

/-- Where the conjuncts hold, so do the predicates of the graph. -/
theorem JoinInputs.Chains.joining_met (met : c.conjuncts.all (c.meets f) = true) :
    c.joining.all (c.meets f) = true := by
  rw [all_eq_true] at met ⊢
  intro d member
  obtain ⟨p,inside,rfl⟩ := mem_map.mp member
  obtain ⟨d,piece,rfl⟩ := mem_map.mp (mem_filter.mp inside).1
  obtain ⟨e,conjunct,piece⟩ := mem_flatMap.mp piece
  have holds := met e conjunct
  rcases expandPredicate_cases e with same | ⟨common,rest,factored,found,expanded⟩
  · rw [same, mem_singleton] at piece
    rwa [piece]
  rcases (chain.original fun _ => True).fits e conjunct with once | ⟨a,b,⟨x,key,-⟩,-⟩
  · rw [meets_once once, factorCommonEq_holds c.interp _ factored found, ← all_append, ← expanded,
      all_eq_true] at holds
    rw [meets_once fun r read => once r (expandPredicate_reads piece read)]
    exact holds d piece
  · obtain ⟨q,n,t,k,q',n',t',k',kind,-⟩ := columnEq_kind key
    obtain ⟨_,_,_⟩ := e
    subst kind
    simp [factorCommonEq, splitOrBranches] at factored
    exact (found factored.1).elim

/-- The predicates that touch two relations, and no others, are in a plan of the enumerations. -/
theorem JoinInputs.Chains.rebuilt (kept : c.RelationsKept keep (reorderJoinsCbo est))
    (found : reorderGraph est ⟨c.relations.map (reorderJoinsCbo est), c.predicates⟩ = some result) :
    c.JoinsAll keep c.joining result := by
  have few : (c.relations.map (reorderJoinsCbo est)).length ≤ 32 := by simpa using chain.few
  obtain ⟨⟨whole,built,full⟩,-⟩ := reorderGraph_built est found few
  have bits : ∀ k, whole.getLsbD k = true ↔ k < c.relations.length := by
    rw [← length_map (f := reorderJoinsCbo est)]
    exact fun k => ⟨built.bound few,full k⟩
  refine (built.combines few (fun k q here => ?_) fun p member => ⟨chain.masks p member,fun r read => ?_⟩).congr
    nodup_range (by simp [bits]) fun e => ?_
  · obtain ⟨relation,listed,rfl⟩ := Option.map_eq_some_iff.mp (getElem?_map ▸ here)
    exact ⟨relation,listed,kept relation (mem_of_getElem? listed)⟩
  · obtain ⟨e,inside,rfl⟩ := mem_map.mp member
    obtain ⟨d,conjunct,piece⟩ := mem_flatMap.mp inside
    exact .inr ⟨d,conjunct,expandPredicate_reads piece read⟩
  · have inside : ∀ p ∈ c.predicates, Mask.Within p.2 whole := by
      intro p member k bit
      obtain ⟨e,-,rfl⟩ := mem_map.mp member
      obtain ⟨-,columns,listed,-⟩ := (relationMask_bit_iff k).mp bit
      rw [bits]
      simpa using (List.getElem?_eq_some_iff.mp listed).1
    rw [JoinInputs.joining, filter_congr fun p member => ?_]
    rw [joinsWithin, Mask.within_iff.mpr (inside p member), Bool.true_and]

section
variable (settled : c.NamesSettled keep) (heuristic : c.RelationsKept keep (reorderJoinsHeuristic est))
include settled heuristic

theorem JoinInputs.Chains.kept_heuristic : Kept c.toDatabase keep (reorderJoinsHeuristic est plan) plan := by
  refine kept_of_joinsAll (chain.swapped ⟨fun l r kind condition reorders => ?_,fun p e => ?_⟩ heuristic)
    (chain.original keep) settled fun _ _ => rfl
  · rw [reorderJoinsHeuristic]
    split
    · exact .inr rfl
    · exact .inl rfl
  · rw [reorderJoinsHeuristic]

/-- A rebuilt plan keeps the rows of a chain exactly when the predicates it has imply those
it lacks. -/
theorem JoinInputs.Chains.kept_iff (cbo : c.RelationsKept keep (reorderJoinsCbo est)) :
    Kept c.toDatabase keep (reorderJoinsCbo est plan) plan ↔
      reorderJoinsCbo est plan = reorderJoinsHeuristic est plan ∨ c.OthersImplied := by
  have swapped := chain.kept_heuristic est settled heuristic
  have original := chain.original keep
  rw [reorderJoinsCbo_chain est chain.isJoin chain.flat]
  cases found : reorderGraph est _ with
  | none => simp [swapped]
  | some result =>
    have rebuilt := chain.rebuilt est cbo found
    rw [Option.getD_some]
    constructor
    · intro kept
      refine .inr (filter_agrees_of_length_le (fun f _ => chain.joining_met) ?_)
      rw [← rebuilt.rows.length_eq, ← original.rows.length_eq, kept.rows.length_eq]
    · rintro (same | implied)
      · rwa [same]
      · refine kept_of_joinsAll rebuilt original settled fun f member => ?_
        exact Bool.eq_iff_iff.mpr ⟨implied f member,chain.joining_met⟩

end

end

def LogicalPlan.inputs : LogicalPlan → List LogicalPlan
  | .filter p _ | .project p _ | .aggregate p _ _ _ | .sort p _ | .limit p _ _ | .window p _ _
  | .subqueryAlias p _ _ | .repeat p _ | .cteProduce _ p _ => [p]
  | .join p q _ _ | .cteAnchor _ p q => [p, q]
  | .union ps _ | .intersect ps | .except ps => ps
  | .scan _ | .values _ _ | .generateSeries _ | .cteConsume _ _ _ => []

/-- No inner or cross join anywhere in the plan. -/
inductive JoinFree : LogicalPlan → Prop
  | node (other : ∀ l r kind condition, plan = .join l r kind condition → kind.reorders = false)
    (below : ∀ p ∈ plan.inputs, JoinFree p) : JoinFree plan

theorem JoinFree.unchanged (est : Estimates σ κ) (free : JoinFree plan) :
    reorderJoinsCbo est plan = plan ∧ reorderJoinsHeuristic est plan = plan := by
  have each : ∀ inputs, (∀ p ∈ inputs, reorderJoinsCbo est p = p ∧ reorderJoinsHeuristic est p = p) →
      inputs.map (reorderJoinsCbo est) = inputs ∧ reorderJoinsHeuristicList est inputs = inputs := by
    intro inputs same
    induction inputs with
    | nil => simp [reorderJoinsHeuristicList]
    | cons p rest ih => simp_all [reorderJoinsHeuristicList]
  induction free with
  | @node plan other _ ih =>
    cases plan <;> simp_all [LogicalPlan.inputs, reorderJoinsCbo, reorderJoinsHeuristic]

/-- Nothing of interest is lost on the way through the plan. In a chain the predicates that
touch two relations imply the others, or no order with equalities between all parts exists. -/
inductive ReorderSafe : Database → (QualifiedRef → Prop) → LogicalPlan → Prop
  | joinFree (free : JoinFree plan) : ReorderSafe d keep plan
  | filter (input : ReorderSafe d (Needed d.interp [e] keep) p) : ReorderSafe d keep (.filter p e)
  | sort (input : ReorderSafe d keep p) : ReorderSafe d keep (.sort p items)
  | project (input : ReorderSafe d (Needed d.interp (items.map ProjectItem.expr) fun _ => False) p) :
    ReorderSafe d keep (.project p items)
  | aggregate (free : ∀ call ∈ aggregates, call.OrderFree d.interp)
    (input : ReorderSafe d
      (Needed d.interp (groupBy ++ aggregates.flatMap AggregateCall.operands) fun _ => False) p) :
    ReorderSafe d keep (.aggregate p groupBy aggregates columns)
  | subqueryAlias (input : ReorderSafe d (fun ref => ∃ ref', keep ref' ∧
      ref = aliasRef (lower name) (columnNames columns) (scopeOf d.interp p) ref') p) :
    ReorderSafe d keep (.subqueryAlias p name columns)
  | join (other : kind.reorders = false) (left : ReorderSafe d (Needed d.interp condition.toList keep) l)
    (right : ReorderSafe d (Needed d.interp condition.toList keep) r) :
    ReorderSafe d keep (.join l r kind condition)
  | chain {c : JoinInputs} (chain : c.Chains plan) (settled : c.NamesSettled keep)
    (relations : ∀ relation ∈ c.relations, ReorderSafe c.toDatabase (Needed c.interp c.conjuncts keep) relation)
    (implied : c.Unordered ∨ c.OthersImplied) : ReorderSafe c.toDatabase keep plan

theorem ReorderSafe.kept (est : Estimates σ κ) (safe : ReorderSafe d keep plan) :
    Kept d keep (reorderJoinsCbo est plan) plan ∧ Kept d keep (reorderJoinsHeuristic est plan) plan := by
  induction safe with
  | joinFree free =>
    rw [(free.unchanged est).1, (free.unchanged est).2]
    exact ⟨.refl _,.refl _⟩
  | chain chain settled relations implied ih =>
    have heuristic := fun relation member => (ih relation member).2
    refine ⟨(chain.kept_iff est settled heuristic fun relation member => (ih relation member).1).mpr ?_,
      chain.kept_heuristic est settled heuristic⟩
    refine implied.imp_left fun ⟨few,apart⟩ => ?_
    rw [reorderJoinsCbo_chain est chain.isJoin chain.flat]
    cases found : reorderGraph est _ with
    | none => rfl
    | some result =>
      have connected := (reorderGraph_built est found (by simpa using chain.few)).2 (by simpa using few)
      rw [length_map] at connected
      exact (apart connected).elim
  | join other _ _ ihl ihr =>
    simpa [reorderJoinsCbo, reorderJoinsHeuristic, other] using ⟨ihl.1.join _ ihr.1,ihl.2.join _ ihr.2⟩
  | filter _ ih => simpa [reorderJoinsCbo, reorderJoinsHeuristic] using And.imp Kept.filter Kept.filter ih
  | sort _ ih => simpa [reorderJoinsCbo, reorderJoinsHeuristic] using And.imp Kept.sort Kept.sort ih
  | project _ ih => simpa [reorderJoinsCbo, reorderJoinsHeuristic] using And.imp Kept.project Kept.project ih
  | aggregate free _ ih =>
    simpa [reorderJoinsCbo, reorderJoinsHeuristic] using And.imp (Kept.aggregate free) (Kept.aggregate free) ih
  | subqueryAlias _ ih =>
    simpa [reorderJoinsCbo, reorderJoinsHeuristic] using And.imp Kept.subqueryAlias Kept.subqueryAlias ih

end

/-- No statistics: the first plan found is kept. -/
def flatEstimates : Estimates Unit Nat where
  statistics _ := ()
  operatorCost _ _ _ := 0
  add a b := a + b
  tenfold a := 10 * a
  atMost a b := decide (a ≤ b)
  rowsAtLeast _ _ := true
  rowsCompare _ _ := .eq
  rowCount _ := 0
  estimateSize _ := 0
  hashOrder masks := masks
  hashOrder_perm _ := Perm.refl _

def sales : LogicalPlan := .scan (.whole "sales" (some "s") ["store", "amount"])

def stores : LogicalPlan := .scan (.whole "stores" (some "t") ["store"])

def smallSale : World := .ofTables
  [("sales", ["store", "amount"], [[.int 1, .int 3]]), ("stores", ["store"], [[.int 1]])]

/-- `sales s JOIN stores t ON e`. -/
def salesOn (e : TypedExpr) : LogicalPlan := .join sales stores .inner (some e)

/-- The condition of `USING (store)`. -/
def sameStore : TypedExpr := .test (.column none "store") .eq (.column none "store")

def soldIn : TypedExpr := .test (.column (some "s") "store") .eq (.column (some "t") "store")

def large : TypedExpr := .test (.column (some "s") "amount") .gt (.int 10)

def salesInputs (conjuncts : List TypedExpr) : JoinInputs :=
  ⟨⟨smallSale, fun _ => [], fun _ => .null⟩, [sales, stores], conjuncts⟩

theorem sales_joinFree : JoinFree sales ∧ JoinFree stores :=
  ⟨.node nofun nofun,.node nofun nofun⟩

theorem sales_chains : (salesInputs [sameStore]).Chains (salesOn sameStore) := by
  have key : (salesInputs [sameStore]).UsingKey sameStore 0 1 := ⟨_,rfl,by decide⟩
  refine ⟨⟨_,_,_,_,rfl,rfl⟩,rfl,by decide,fun _ => ⟨trivial,trivial,fun e member => ?_⟩,fun p member => ?_⟩
  · cases mem_singleton.mp member
    exact .inr ⟨0,1,key,.inl ⟨by decide,by decide⟩⟩
  · cases mem_singleton.mp member
    exact .inr ⟨0,1,key,by decide⟩

end NovaRocks
