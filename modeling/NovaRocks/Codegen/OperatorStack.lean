import NovaRocks.Relational.Window

/-!
Stacks of filters, limits, sorts and projections over a leaf, from the physical plan to
the execution tree. The fragment builder emits a plan node for the leaf, a projection
and a sort only: a filter and a limit are written into fields of the node that heads
the plan below them. Lowering reads the fields of a node in one fixed order. Both
levels are given a meaning here: rows come from the leaf in any order, rows that tie
are sorted in any order, every other operator works on the rows as they come.
-/
namespace NovaRocks.Codegen
open Relational

/-- The operators of a stack, with the items of a sort as the order they give. A split TopN is the
FINAL stage over the PARTIAL stage it was split into; the two have the same items. -/
inductive PhysicalPlan (α : Type) where
  | leaf
  | filter (predicate : α → Bool) (child : PhysicalPlan α)
  | limit (limit offset : Option Nat) (child : PhysicalPlan α)
  | sort (items : SortOrder α) (child : PhysicalPlan α)
  | topN (items : SortOrder α) (limit offset : Option Nat) (child : PhysicalPlan α)
  | splitTopN (items : SortOrder α) (limit offset firstLimit firstOffset : Option Nat)
      (child : PhysicalPlan α)
  | project (items : α → α) (child : PhysicalPlan α)
  | subqueryAlias (child : PhysicalPlan α)

inductive NodeBody (α : Type) where
  | scanNode
  | projectNode (slotMap : α → α)
  | sortNode (sortInfo : SortOrder α) (useTopN : Bool) (offset : Option Int)
  | exchangeNode (sortInfo : SortOrder α) (offset : Option Int)

structure TPlanNode (α : Type) where
  body : NodeBody α
  conjuncts : List (α → Bool)
  /-- A negative limit is none. -/
  limit : Int

inductive ExecNode (α : Type) where
  | scan (conjunctPredicate : List (α → Bool))
  | exchangeSource (sender : ExecNode α)
  | project (exprs : α → α) (input : ExecNode α)
  | filter (predicate : List (α → Bool)) (input : ExecNode α)
  | limit (limit : Option Nat) (offset : Nat) (input : ExecNode α)
  | sort (orderBy : SortOrder α) (limit : Option Nat) (offset : Nat) (input : ExecNode α)

section
variable {α : Type}

/-! ### The fragment builder -/

def unwrapOrNone (limit : Option Nat) : Int :=
  (limit.map Int.ofNat).getD (-1)

def visitFilter (predicate : α → Bool) : List (TPlanNode α) → List (TPlanNode α)
  | [] => []
  | top :: rest => { top with conjuncts := top.conjuncts ++ [predicate] } :: rest

def visitLimit (limit offset : Option Nat) : List (TPlanNode α) → Except String (List (TPlanNode α))
  | [] => .ok []
  | top :: rest =>
    match top.body with
    | .sortNode sortInfo useTopN _ =>
      .ok ({ top with
        body := .sortNode sortInfo useTopN (offset.map Int.ofNat)
        limit := unwrapOrNone limit } :: rest)
    | _ =>
      if offset.isSome then .error "LIMIT/OFFSET without a SORT child is not supported"
      else .ok ({ top with limit := (limit.map Int.ofNat).getD top.limit } :: rest)

def visitSort (items : SortOrder α) (nodes : List (TPlanNode α)) : List (TPlanNode α) :=
  ⟨.sortNode items false none, [], -1⟩ :: nodes

def visitPhysicalTopNSingleOrPartial (items : SortOrder α) (limit offset : Option Nat)
    (nodes : List (TPlanNode α)) : List (TPlanNode α) :=
  ⟨.sortNode items true (offset.map Int.ofNat), [], unwrapOrNone limit⟩ :: nodes

/-- The nodes of the closed fragment stand behind the exchange that receives its rows. The exchange
merges by the sort keys of the fragment's head. -/
def visitPhysicalTopNFinalSplit (limit offset : Option Nat) (nodes : List (TPlanNode α)) :
    Except String (List (TPlanNode α)) :=
  match nodes with
  | ⟨.sortNode sortInfo _ _, _, _⟩ :: _ =>
    .ok (⟨.exchangeNode sortInfo (offset.map Int.ofNat), [], unwrapOrNone limit⟩ :: nodes)
  | _ => .error "FINAL+split TopN: expected PARTIAL child's root to be SORT_NODE"

def visitProject (items : α → α) (nodes : List (TPlanNode α)) : List (TPlanNode α) :=
  ⟨.projectNode items, [], -1⟩ :: nodes

def visit : PhysicalPlan α → Except String (List (TPlanNode α))
  | .leaf => .ok [⟨.scanNode, [], -1⟩]
  | .filter predicate child => (visit child).map (visitFilter predicate)
  | .limit limit offset child => (visit child).bind (visitLimit limit offset)
  | .sort items child => (visit child).map (visitSort items)
  | .topN items limit offset child =>
    (visit child).map (visitPhysicalTopNSingleOrPartial items limit offset)
  | .splitTopN items limit offset firstLimit firstOffset child => do
    let nodes ← visit child
    visitPhysicalTopNFinalSplit limit offset
      (visitPhysicalTopNSingleOrPartial items firstLimit firstOffset nodes)
  | .project items child => (visit child).map (visitProject items)
  | .subqueryAlias child => visit child

/-! ### Lowering -/

section
variable (node : TPlanNode α)

def limitOf : Option Nat :=
  if 0 ≤ node.limit then some node.limit.toNat else none

def lowerSortNode (sortInfo : SortOrder α) (useTopN : Bool) (offset : Option Int)
    (child : ExecNode α) : Except String (ExecNode α) :=
  if offset.getD 0 < 0 then .error "SORT_NODE offset must be >= 0"
  else if useTopN && (limitOf node).isNone then
    .error "SORT_NODE use_top_n=true requires node.limit >= 0"
  else .ok (.sort sortInfo (limitOf node) (offset.getD 0).toNat child)

def lowerExchangeNode (sortInfo : SortOrder α) (offset : Option Int) (sender : ExecNode α) :
    Except String (ExecNode α) :=
  if offset.getD 0 < 0 then .error "EXCHANGE_NODE offset must be >= 0"
  else .ok (.sort sortInfo (limitOf node) (offset.getD 0).toNat (.exchangeSource sender))

def applyConjuncts (lowered : ExecNode α) : ExecNode α :=
  if node.conjuncts.isEmpty then lowered
  else
    match lowered with
    | .scan existing => .scan (existing ++ node.conjuncts)
    | other => .filter node.conjuncts other

def applyLimit (lowered : ExecNode α) : ExecNode α :=
  match limitOf node, lowered with
  | none, _ => lowered
  | some _, .sort .. => lowered
  | some _, .limit .. => lowered
  | some n, other => .limit (some n) 0 other

end

def lowerNodeWithChildren : List (TPlanNode α) → Except String (ExecNode α)
  | [] => .error "empty plan"
  | node :: rest => do
    let lowered ← match node.body with
      | .scanNode => .ok (.scan [])
      | .projectNode slotMap => (lowerNodeWithChildren rest).map (.project slotMap)
      | .sortNode sortInfo useTopN offset =>
        (lowerNodeWithChildren rest).bind (lowerSortNode node sortInfo useTopN offset)
      | .exchangeNode sortInfo offset =>
        (lowerNodeWithChildren rest).bind (lowerExchangeNode node sortInfo offset)
    .ok (applyLimit node (applyConjuncts node lowered))

def generate (plan : PhysicalPlan α) : Except String (ExecNode α) :=
  (visit plan).bind lowerNodeWithChildren

/-! ### What the two may return -/

def SortWindow (items : SortOrder α) (limit : Option Nat) (offset : Nat) (input out : List α) : Prop :=
  ∃ sorted, Sorts (fun a b => items.le a b) input sorted ∧ out = window limit offset sorted

def PhysicalPlan.Returns (contents : List α) : PhysicalPlan α → List α → Prop
  | .leaf, out => out.Perm contents
  | .filter predicate child, out => ∃ rows, child.Returns contents rows ∧ out = rows.filter predicate
  | .limit count offset child, out =>
    ∃ rows, child.Returns contents rows ∧ out = window count (offset.getD 0) rows
  | .sort items child, out => ∃ rows, child.Returns contents rows ∧ SortWindow items none 0 rows out
  | .topN items count offset child, out =>
    ∃ rows, child.Returns contents rows ∧ SortWindow items count (offset.getD 0) rows out
  | .splitTopN items count offset firstLimit firstOffset child, out =>
    ∃ rows, child.Returns contents rows ∧
      ∃ first, SortWindow items firstLimit (firstOffset.getD 0) rows first ∧
        SortWindow items count (offset.getD 0) first out
  | .project items child, out => ∃ rows, child.Returns contents rows ∧ out = rows.map items
  | .subqueryAlias child, out => child.Returns contents out

def passes (conjuncts : List (α → Bool)) (row : α) : Bool :=
  conjuncts.all fun conjunct => conjunct row

/-- An exchange delivers the rows of its sender in any order. -/
def ExecNode.Returns (contents : List α) : ExecNode α → List α → Prop
  | .scan conjuncts, out => ∃ rows : List α, rows.Perm contents ∧ out = rows.filter (passes conjuncts)
  | .exchangeSource sender, out => ∃ rows, sender.Returns contents rows ∧ out.Perm rows
  | .project exprs input, out => ∃ rows, input.Returns contents rows ∧ out = rows.map exprs
  | .filter predicate input, out =>
    ∃ rows, input.Returns contents rows ∧ out = rows.filter (passes predicate)
  | .limit count offset input, out =>
    ∃ rows, input.Returns contents rows ∧ out = window count offset rows
  | .sort orderBy count offset input, out =>
    ∃ rows, input.Returns contents rows ∧ SortWindow orderBy count offset rows out

end

end NovaRocks.Codegen
