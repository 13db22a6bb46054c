import NovaRocks.Store.Checked
import NovaRocks.Codegen.OperatorStack

/-!
What the emitted nodes amount to. The operators of a stack fall into segments: the
operator that emits a node, and the filters and limits above it that are written into
that node. A segment's node holds one limit and one offset for all of them, and the
tree generated for a plan applies that window and all of the segment's filters, in an
order that depends on the kind of the node only.
-/
namespace NovaRocks.Codegen
open Relational
open List hiding min

inductive Shape where
  | leaf
  | filter (child : Shape)
  | limit (limit offset : Option Nat) (child : Shape)
  | sort (child : Shape)
  | topN (limit offset : Option Nat) (child : Shape)
  | splitTopN (limit offset firstLimit firstOffset : Option Nat) (child : Shape)
  | project (child : Shape)
  | subqueryAlias (child : Shape)
  deriving DecidableEq

inductive HeadKind where
  | plain
  | sort (useTopN : Bool)
  | exchange
  deriving DecidableEq

/-- The topmost segment: the kind of its node, the window the node holds, whether a filter
is written into it, the most rows that can enter it and whether they come in a fixed order. -/
structure Segment where
  head : HeadKind
  limit : Option Nat
  offset : Nat
  filtered : Bool
  rows : ℕ∞
  ordered : Bool

noncomputable def Segment.most (segment : Segment) : ℕ∞ :=
  min (bound segment.limit) (segment.rows - segment.offset)

/-- The window after a limit above the segment: a sort's is replaced, offset and all,
in another node the limit is replaced if there is one. -/
def Segment.limitTo (segment : Segment) (limit offset : Option Nat) : Segment :=
  match segment.head with
  | .sort _ => { segment with limit := limit, offset := offset.getD 0 }
  | _ => { segment with limit := limit.or segment.limit }

theorem Segment.limitTo_sort {segment : Segment} (kind : segment.head = .sort useTopN)
    (limit offset : Option Nat) : segment.limitTo limit offset =
      ⟨segment.head, limit, offset.getD 0, segment.filtered, segment.rows, segment.ordered⟩ := by
  unfold Segment.limitTo
  split
  case h_1 => rfl
  case h_2 other => exact absurd kind (other useTopN)

theorem Segment.limitTo_other {segment : Segment} (noSort : ∀ useTopN, segment.head ≠ .sort useTopN)
    (limit offset : Option Nat) : segment.limitTo limit offset =
      ⟨segment.head, limit.or segment.limit, segment.offset, segment.filtered, segment.rows,
        segment.ordered⟩ := by
  unfold Segment.limitTo
  split
  case h_1 useTopN kind => exact absurd kind (noSort useTopN)
  case h_2 => rfl

noncomputable def Shape.segment : Shape → Segment
  | .leaf => ⟨.plain, none, 0, false, ⊤, false⟩
  | .filter child => { child.segment with filtered := true }
  | .limit count offset child => child.segment.limitTo count offset
  | .sort child => ⟨.sort false, none, 0, false, child.segment.most, true⟩
  | .topN count offset child =>
    ⟨.sort true, count, offset.getD 0, false, child.segment.most, true⟩
  | .splitTopN count offset firstLimit firstOffset child =>
    ⟨.exchange, count, offset.getD 0, false,
      min (bound firstLimit) (child.segment.most - (firstOffset.getD 0 : Nat)), true⟩
  | .project child => ⟨.plain, none, 0, false, child.segment.most, child.segment.ordered⟩
  | .subqueryAlias child => child.segment

/-- The stacks for which a tree is generated, at every level: an offset needs a sort
below it, the sort of a TopN needs a limit. -/
def Shape.Accepted : Shape → Prop
  | .leaf => True
  | .filter child => child.Accepted
  | .limit count offset child => child.Accepted ∧
    match child.segment.head with
    | .sort useTopN => useTopN → count ≠ none
    | _ => offset = none
  | .sort child => child.Accepted
  | .topN count _ child => child.Accepted ∧ count ≠ none
  | .splitTopN _ _ firstLimit _ child => child.Accepted ∧ firstLimit ≠ none
  | .project child => child.Accepted
  | .subqueryAlias child => child.Accepted

section
variable {α : Type}

def PhysicalPlan.shape : PhysicalPlan α → Shape
  | .leaf => .leaf
  | .filter _ child => .filter child.shape
  | .limit count offset child => .limit count offset child.shape
  | .sort _ child => .sort child.shape
  | .topN _ count offset child => .topN count offset child.shape
  | .splitTopN _ count offset firstLimit firstOffset child =>
    .splitTopN count offset firstLimit firstOffset child.shape
  | .project _ child => .project child.shape
  | .subqueryAlias child => .subqueryAlias child.shape

def PhysicalPlan.keep : PhysicalPlan α → α → Bool
  | .filter predicate child => fun row => child.keep row && predicate row
  | .limit _ _ child => child.keep
  | .subqueryAlias child => child.keep
  | _ => fun _ => true

def Segment.finish (segment : Segment) (keep : α → Bool) (rows : List α) : List α :=
  match segment.head with
  | .plain => window segment.limit 0 (rows.filter keep)
  | _ => (window segment.limit segment.offset rows).filter keep

noncomputable def PhysicalPlan.finish (plan : PhysicalPlan α) (rows : List α) : List α :=
  plan.shape.segment.finish plan.keep rows

/-- The rows that enter the topmost segment, given what the plans below it return. -/
def PhysicalPlan.Enters (below : PhysicalPlan α → List α → Prop) (contents : List α) :
    PhysicalPlan α → List α → Prop
  | .leaf, rows => rows.Perm contents
  | .filter _ child, rows => child.Enters below contents rows
  | .limit _ _ child, rows => child.Enters below contents rows
  | .sort items child, rows =>
    ∃ inner, below child inner ∧ Sorts (fun a b => items.le a b) inner rows
  | .topN items _ _ child, rows =>
    ∃ inner, below child inner ∧ Sorts (fun a b => items.le a b) inner rows
  | .splitTopN items _ _ firstLimit firstOffset child, rows =>
    ∃ inner, below child inner ∧ ∃ first, SortWindow items firstLimit (firstOffset.getD 0) inner first ∧
      Sorts (fun a b => items.le a b) first rows
  | .project items child, rows => ∃ inner, below child inner ∧ rows = inner.map items
  | .subqueryAlias child, rows => child.Enters below contents rows

def Generates (contents : List α) (plan : PhysicalPlan α) (out : List α) : Prop :=
  ∃ tree, generate plan = .ok tree ∧ tree.Returns contents out

/-! ### The fields of a node -/

variable {node : TPlanNode α}

theorem limitOf_unwrapOrNone (field : node.limit = unwrapOrNone limit) : limitOf node = limit := by
  cases limit with
  | none | some => simp [limitOf, field, unwrapOrNone]

theorem returns_applyConjuncts (node : TPlanNode α) (lowered : ExecNode α) (contents out : List α) :
    (applyConjuncts node lowered).Returns contents out ↔
      ∃ rows, lowered.Returns contents rows ∧ out = rows.filter (passes node.conjuncts) := by
  unfold applyConjuncts
  split
  case isTrue none' =>
    have all : passes node.conjuncts = fun _ => true := by
      rw [isEmpty_iff.mp none']
      rfl
    simp [all]
  case isFalse =>
    split
    case h_1 existing =>
      have both : ∀ rows : List α, rows.filter (passes (existing ++ node.conjuncts)) =
          (rows.filter (passes existing)).filter (passes node.conjuncts) := by
        intro rows
        rw [filter_filter]
        congr 1
        funext row
        simp [passes, Bool.and_comm]
      simp only [ExecNode.Returns, both]
      constructor
      · rintro ⟨rows,perm,rfl⟩
        exact ⟨_,⟨rows,perm,rfl⟩,rfl⟩
      · rintro ⟨_,⟨rows,perm,rfl⟩,rfl⟩
        exact ⟨rows,perm,rfl⟩
    case h_2 => exact Iff.rfl

theorem returns_applyLimit (node : TPlanNode α)
    (noSort : ∀ order limit offset input, lowered ≠ .sort order limit offset input)
    (noLimit : ∀ limit offset input, lowered ≠ .limit limit offset input) (contents out : List α) :
    (applyLimit node lowered).Returns contents out ↔
      ∃ rows, lowered.Returns contents rows ∧ out = window (limitOf node) 0 rows := by
  unfold applyLimit
  cases limitOf node with
  | none => simp
  | some n =>
    cases lowered with
    | sort order limit offset input => exact absurd rfl (noSort order limit offset input)
    | limit limit offset input => exact absurd rfl (noLimit limit offset input)
    | _ => exact Iff.rfl

theorem lowered_sort :
    (applyLimit node (applyConjuncts node (.sort order (limitOf node) offset input))).Returns
        contents out ↔
      ∃ rows, (∃ inner, input.Returns contents inner ∧ Sorts (fun a b => order.le a b) inner rows) ∧
        out = (window (limitOf node) offset rows).filter (passes node.conjuncts) := by
  by_cases none' : node.conjuncts.isEmpty
  · have same : applyLimit node (applyConjuncts node (.sort order (limitOf node) offset input)) =
        .sort order (limitOf node) offset input := by
      unfold applyConjuncts applyLimit
      rw [if_pos none']
      cases limitOf node <;> rfl
    have all : passes node.conjuncts = fun _ => true := by
      rw [isEmpty_iff.mp none']
      rfl
    simp only [same, all, filter_true]
    constructor
    · rintro ⟨inner,under,sorted,sorts,equal⟩
      exact ⟨sorted,⟨inner,under,sorts⟩,equal⟩
    · rintro ⟨sorted,⟨inner,under,sorts⟩,equal⟩
      exact ⟨inner,under,sorted,sorts,equal⟩
  · have filtered : applyConjuncts node (.sort order (limitOf node) offset input) =
        .filter node.conjuncts (.sort order (limitOf node) offset input) := if_neg none'
    rw [filtered, returns_applyLimit node (by simp) (by simp)]
    have idle : ∀ sorted : List α, window (limitOf node) 0
        ((window (limitOf node) offset sorted).filter (passes node.conjuncts)) =
          (window (limitOf node) offset sorted).filter (passes node.conjuncts) := by
      intro sorted
      cases limitOf node with
      | none => rfl
      | some n =>
        apply window_of_length_le
        refine (length_filter_le _ _).trans ?_
        exact length_take_le _ _
    constructor
    · rintro ⟨_,⟨_,⟨inner,under,sorted,sorts,rfl⟩,rfl⟩,rfl⟩
      exact ⟨sorted,⟨inner,under,sorts⟩,idle sorted⟩
    · rintro ⟨sorted,⟨inner,under,sorts⟩,rfl⟩
      exact ⟨_,⟨_,⟨inner,under,sorted,sorts,rfl⟩,rfl⟩,(idle sorted).symm⟩

/-! ### The node that heads the emitted plan -/

def Supplies (contents : List α) (body : NodeBody α) (rest : List (TPlanNode α)) (rows : List α) : Prop :=
  match body with
  | .scanNode => rows.Perm contents
  | .projectNode slotMap => ∃ tree, lowerNodeWithChildren rest = .ok tree ∧
    ∃ inner, tree.Returns contents inner ∧ rows = inner.map slotMap
  | .sortNode sortInfo _ _ => ∃ tree, lowerNodeWithChildren rest = .ok tree ∧
    ∃ inner, tree.Returns contents inner ∧ Sorts (fun a b => sortInfo.le a b) inner rows
  | .exchangeNode sortInfo _ => ∃ tree, lowerNodeWithChildren rest = .ok tree ∧
    ∃ inner, tree.Returns contents inner ∧ Sorts (fun a b => sortInfo.le a b) inner rows

def Heads (segment : Segment) : NodeBody α → Prop
  | .scanNode => segment.head = .plain
  | .projectNode _ => segment.head = .plain
  | .sortNode _ useTopN offset =>
    segment.head = .sort useTopN ∧ offset.getD 0 = (segment.offset : Int)
  | .exchangeNode _ offset => segment.head = .exchange ∧ offset.getD 0 = (segment.offset : Int)

structure Emits (plan : PhysicalPlan α) (head : TPlanNode α) (rest : List (TPlanNode α)) : Prop where
  visited : visit plan = .ok (head :: rest)
  keep : passes head.conjuncts = plan.keep
  limit : head.limit = unwrapOrNone plan.shape.segment.limit
  heads : Heads plan.shape.segment head.body
  lowers : head.body = .scanNode ∨ ∃ tree, lowerNodeWithChildren rest = .ok tree
  supplies : ∀ contents rows,
    Supplies contents head.body rest rows ↔ plan.Enters (Generates contents) contents rows

theorem lowered_plain (noSort : ∀ order limit offset input, lowered ≠ .sort order limit offset input)
    (noLimit : ∀ limit offset input, lowered ≠ .limit limit offset input) :
    (applyLimit node (applyConjuncts node lowered)).Returns contents out ↔
      ∃ rows, lowered.Returns contents rows ∧
        out = window (limitOf node) 0 (rows.filter (passes node.conjuncts)) := by
  have stays : (∀ order limit offset input, applyConjuncts node lowered ≠ .sort order limit offset input) ∧
      ∀ limit offset input, applyConjuncts node lowered ≠ .limit limit offset input := by
    unfold applyConjuncts
    split
    · exact ⟨noSort,noLimit⟩
    · split <;> simp
  rw [returns_applyLimit node stays.1 stays.2]
  constructor
  · rintro ⟨_,returned,rfl⟩
    obtain ⟨rows,under,rfl⟩ := (returns_applyConjuncts _ _ _ _).mp returned
    exact ⟨rows,under,rfl⟩
  · rintro ⟨rows,under,rfl⟩
    exact ⟨_,(returns_applyConjuncts _ _ _ _).mpr ⟨rows,under,rfl⟩,rfl⟩

variable {plan : PhysicalPlan α}

theorem generate_of_visited
    (visited : visit plan = .ok nodes) : generate plan = lowerNodeWithChildren nodes := by
  rw [generate, visited]
  rfl

section
variable {head : TPlanNode α}
theorem lower_scan (body : head.body = .scanNode) : lowerNodeWithChildren (head :: rest) =
    .ok (applyLimit head (applyConjuncts head (.scan []))) := by
  rw [lowerNodeWithChildren, body]
  rfl

theorem lower_project (body : head.body = .projectNode slotMap)
    (lowered : lowerNodeWithChildren rest = .ok child) : lowerNodeWithChildren (head :: rest) =
      .ok (applyLimit head (applyConjuncts head (.project slotMap child))) := by
  rw [lowerNodeWithChildren, body, lowered]
  rfl

theorem lower_sort {place : Nat}
    (body : head.body = .sortNode sortInfo useTopN offset) (placed : offset.getD 0 = (place : Int))
    (limited : useTopN = true → limitOf head ≠ none)
    (lowered : lowerNodeWithChildren rest = .ok child) : lowerNodeWithChildren (head :: rest) =
      .ok (applyLimit head (applyConjuncts head (.sort sortInfo (limitOf head) place child))) := by
  have valid : ¬ offset.getD 0 < 0 := by omega
  have found : (useTopN && (limitOf head).isNone) = false := by
    cases useTopN with
    | false => rfl
    | true =>
      exact Option.isNone_eq_false_iff.mpr (Option.isSome_iff_ne_none.mpr (limited rfl))
  have node : lowerSortNode head sortInfo useTopN offset child =
      .ok (.sort sortInfo (limitOf head) place child) := by
    rw [lowerSortNode, if_neg valid, found, placed]
    rfl
  rw [lowerNodeWithChildren, body, lowered]
  change (lowerSortNode head sortInfo useTopN offset child >>= _) = _
  rw [node]
  rfl

theorem lower_exchange {place : Nat}
    (body : head.body = .exchangeNode sortInfo offset) (placed : offset.getD 0 = (place : Int))
    (lowered : lowerNodeWithChildren rest = .ok child) : lowerNodeWithChildren (head :: rest) =
      .ok (applyLimit head (applyConjuncts head
        (.sort sortInfo (limitOf head) place (.exchangeSource child)))) := by
  have valid : ¬ offset.getD 0 < 0 := by omega
  have node : lowerExchangeNode head sortInfo offset child =
      .ok (.sort sortInfo (limitOf head) place (.exchangeSource child)) := by
    rw [lowerExchangeNode, if_neg valid, placed]
    rfl
  rw [lowerNodeWithChildren, body, lowered]
  change (lowerExchangeNode head sortInfo offset child >>= _) = _
  rw [node]
  rfl

theorem Emits.generated (emits : Emits plan head rest)
    (limited : plan.shape.segment.head = .sort true → plan.shape.segment.limit ≠ none) :
    ∃ tree, generate plan = .ok tree ∧ ∀ contents out, tree.Returns contents out ↔
      ∃ rows, plan.Enters (Generates contents) contents rows ∧ out = plan.finish rows := by
  have count := limitOf_unwrapOrNone emits.limit
  have heads := emits.heads
  have supplies := emits.supplies
  have lowers := emits.lowers
  rw [generate_of_visited emits.visited]
  unfold PhysicalPlan.finish Segment.finish
  rw [← emits.keep]
  cases body : head.body with
  | scanNode =>
    rw [body] at heads supplies
    refine ⟨_,lower_scan body,fun contents out => ?_⟩
    rw [lowered_plain (by simp) (by simp), show plan.shape.segment.head = .plain from heads, count]
    refine exists_congr fun rows => and_congr_left fun _ => (Iff.trans ?_ (supplies contents rows))
    constructor
    · rintro ⟨order,perm,rfl⟩
      exact (filter_true order).symm ▸ perm
    · intro perm
      exact ⟨rows,perm,(filter_true rows).symm⟩
  | projectNode slotMap =>
    rw [body] at heads supplies lowers
    obtain ⟨child,lowered⟩ := lowers.resolve_left (by simp)
    refine ⟨_,lower_project body lowered,fun contents out => ?_⟩
    rw [lowered_plain (by simp) (by simp), show plan.shape.segment.head = .plain from heads, count]
    simp only [← supplies, Supplies, lowered, Except.ok.injEq, exists_eq_left']
    rfl
  | sortNode sortInfo useTopN offset =>
    rw [body] at heads supplies lowers
    obtain ⟨child,lowered⟩ := lowers.resolve_left (by simp)
    obtain ⟨kind,placed⟩ := heads
    have held : useTopN = true → limitOf head ≠ none := by
      rintro rfl
      exact count ▸ limited kind
    refine ⟨_,lower_sort body placed held lowered,fun contents out => ?_⟩
    rw [lowered_sort, kind, count]
    simp only [← supplies, Supplies, lowered, Except.ok.injEq, exists_eq_left']
  | exchangeNode sortInfo offset =>
    rw [body] at heads supplies lowers
    obtain ⟨child,lowered⟩ := lowers.resolve_left (by simp)
    obtain ⟨kind,placed⟩ := heads
    refine ⟨_,lower_exchange body placed lowered,fun contents out => ?_⟩
    rw [lowered_sort, kind, count]
    refine exists_congr fun rows => and_congr_left fun _ => (Iff.trans ?_ (supplies contents rows))
    simp only [Supplies, lowered, Except.ok.injEq, exists_eq_left']
    -- the order in which the sender's rows arrive does not matter to the merge
    constructor
    · rintro ⟨inner,⟨sent,returned,perm⟩,sorts⟩
      exact ⟨sent,returned,sorts.1.trans perm,sorts.2⟩
    · rintro ⟨sent,returned,sorts⟩
      exact ⟨sent,⟨sent,returned,Perm.refl _⟩,sorts⟩

end

theorem Shape.Accepted.limited {shape : Shape} (accepted : shape.Accepted) :
    shape.segment.head = .sort true → shape.segment.limit ≠ none := by
  induction shape with
  | leaf | sort | splitTopN | project => exact nofun
  | filter _ ih | subqueryAlias _ ih => exact ih accepted
  | topN count offset child => exact fun _ => accepted.2
  | limit count offset child ih =>
    have top := accepted.2
    intro sorted
    by_cases kind : ∃ useTopN, child.segment.head = .sort useTopN
    · obtain ⟨useTopN,kind⟩ := kind
      rw [Shape.segment, Segment.limitTo_sort kind] at sorted ⊢
      rw [kind] at top sorted
      cases sorted
      exact top rfl
    · rw [Shape.segment, Segment.limitTo_other (not_exists.mp kind)] at sorted
      exact absurd ⟨true,sorted⟩ kind

theorem generates_iff {meets : List α → Prop} (visited : visit child = .ok nodes) :
    (∃ tree, lowerNodeWithChildren nodes = .ok tree ∧ ∃ inner, tree.Returns contents inner ∧ meets inner) ↔
      ∃ inner, Generates contents child inner ∧ meets inner := by
  rw [← generate_of_visited visited]
  constructor
  · rintro ⟨tree,made,inner,returned,met⟩
    exact ⟨inner,⟨tree,made,returned⟩,met⟩
  · rintro ⟨inner,⟨tree,made,returned⟩,met⟩
    exact ⟨tree,made,inner,returned,met⟩

theorem getD_ofNat (offset : Option Nat) : (offset.map Int.ofNat).getD 0 = ((offset.getD 0 : Nat) : Int) := by
  cases offset <;> rfl

theorem lower_first_stage {child : ExecNode α} (limited : limit ≠ none)
    (lowered : lowerNodeWithChildren nodes = .ok child) :
    lowerNodeWithChildren (visitPhysicalTopNSingleOrPartial items limit offset nodes) =
      .ok (.sort items limit (offset.getD 0) child) := by
  let node : TPlanNode α := ⟨.sortNode items true (offset.map Int.ofNat),[],unwrapOrNone limit⟩
  have count : limitOf node = limit := limitOf_unwrapOrNone rfl
  have made : lowerNodeWithChildren (node :: nodes) = _ :=
    lower_sort rfl (getD_ofNat offset) (fun _ => count.symm ▸ limited) lowered
  refine made.trans ?_
  cases limit <;> rfl

variable {head : TPlanNode α}

theorem visitLimit_other (limit offset : Option Nat) (rest : List (TPlanNode α))
    (noNode : ∀ sortInfo useTopN place, head.body ≠ .sortNode sortInfo useTopN place) :
    visitLimit limit offset (head :: rest) =
      if offset.isSome then .error "LIMIT/OFFSET without a SORT child is not supported"
      else .ok ({ head with limit := (limit.map Int.ofNat).getD head.limit } :: rest) := by
  rw [visitLimit]
  split
  case h_1 sortInfo useTopN place body => exact absurd body (noNode sortInfo useTopN place)
  case h_2 => rfl

theorem Emits.limit_above {limit offset : Option Nat} (emits : Emits child head rest)
    (accepted : (Shape.limit limit offset child.shape).Accepted) :
    ∃ top, Emits (.limit limit offset child) top rest := by
  have heads := emits.heads
  have supplies := emits.supplies
  have above := accepted.2
  have other : (∀ useTopN, child.shape.segment.head ≠ .sort useTopN) →
      (∀ sortInfo useTopN place, head.body ≠ .sortNode sortInfo useTopN place) →
      ∃ top, Emits (.limit limit offset child) top rest := by
    intro noSort noNode
    have moved := Segment.limitTo_other noSort limit offset
    have unplaced : offset = none := by
      split at above
      case h_1 useTopN kind => exact absurd kind (noSort useTopN)
      case h_2 => exact above
    refine ⟨{ head with limit := (limit.map Int.ofNat).getD head.limit },?_,emits.keep,?_,?_,
      emits.lowers,emits.supplies⟩
    · rw [visit, emits.visited, unplaced]
      exact visitLimit_other limit none rest noNode
    · simp only [PhysicalPlan.shape, Shape.segment, moved, emits.limit]
      cases limit <;> rfl
    · rw [PhysicalPlan.shape, Shape.segment, moved]
      exact emits.heads
  cases body : head.body with
  | scanNode | projectNode =>
    rw [body] at heads
    refine other (fun useTopN kind => ?_) (by simp [body])
    exact absurd (kind.symm.trans heads) (by simp)
  | exchangeNode sortInfo place =>
    rw [body] at heads
    refine other (fun useTopN kind => ?_) (by simp [body])
    exact absurd (kind.symm.trans heads.1) (by simp)
  | sortNode sortInfo useTopN place =>
    rw [body] at heads supplies
    have moved := Segment.limitTo_sort heads.1 limit offset
    have lowers := emits.lowers.resolve_left (by simp [body])
    refine ⟨{ head with
      body := .sortNode sortInfo useTopN (offset.map Int.ofNat)
      limit := unwrapOrNone limit },?_,emits.keep,?_,?_,.inr lowers,supplies⟩
    · rw [visit, emits.visited]
      change visitLimit limit offset (head :: rest) = _
      rw [visitLimit, body]
    · rw [PhysicalPlan.shape, Shape.segment, moved]
    · rw [PhysicalPlan.shape, Shape.segment, moved]
      exact ⟨heads.1,getD_ofNat offset⟩

theorem passes_append (conjuncts : List (α → Bool)) (predicate : α → Bool) :
    passes (conjuncts ++ [predicate]) = fun row => passes conjuncts row && predicate row := by
  funext row
  simp [passes]

theorem Emits.lowered (emits : Emits plan head rest) (accepted : plan.shape.Accepted) :
    ∃ tree, lowerNodeWithChildren (head :: rest) = .ok tree := by
  obtain ⟨tree,made,_⟩ := emits.generated accepted.limited
  exact ⟨tree,(generate_of_visited emits.visited).symm.trans made⟩

theorem exists_emits (accepted : plan.shape.Accepted) : ∃ head rest, Emits plan head rest := by
  induction plan with
  | leaf =>
    exact ⟨⟨.scanNode,[],-1⟩,[],rfl,rfl,rfl,rfl,.inl rfl,fun _ _ => Iff.rfl⟩
  | filter predicate child ih =>
    obtain ⟨head,rest,emits⟩ := ih accepted
    refine ⟨{ head with conjuncts := head.conjuncts ++ [predicate] },rest,
      { emits with visited := ?_, keep := ?_ }⟩
    · rw [visit, emits.visited]
      rfl
    · rw [passes_append, emits.keep]
      rfl
  | limit count offset child ih =>
    obtain ⟨head,rest,emits⟩ := ih accepted.1
    obtain ⟨top,above⟩ := emits.limit_above accepted
    exact ⟨top,rest,above⟩
  | subqueryAlias child ih =>
    obtain ⟨head,rest,emits⟩ := ih accepted
    exact ⟨head,rest,{ emits with }⟩
  | sort items child ih =>
    obtain ⟨head,rest,emits⟩ := ih accepted
    obtain ⟨tree,made⟩ := emits.lowered accepted
    refine ⟨⟨.sortNode items false none,[],-1⟩,head :: rest,?_,rfl,rfl,⟨rfl,rfl⟩,
      .inr ⟨tree,made⟩,fun contents rows => generates_iff emits.visited⟩
    rw [visit, emits.visited]
    rfl
  | topN items count offset child ih =>
    obtain ⟨head,rest,emits⟩ := ih accepted.1
    obtain ⟨tree,made⟩ := emits.lowered accepted.1
    refine ⟨⟨.sortNode items true (offset.map Int.ofNat),[],unwrapOrNone count⟩,head :: rest,?_,
      rfl,rfl,⟨rfl,getD_ofNat offset⟩,.inr ⟨tree,made⟩,
      fun contents rows => generates_iff emits.visited⟩
    rw [visit, emits.visited]
    rfl
  | splitTopN items count offset firstLimit firstOffset child ih =>
    obtain ⟨head,rest,emits⟩ := ih accepted.1
    obtain ⟨tree,made⟩ := emits.lowered accepted.1
    have first : lowerNodeWithChildren
        (visitPhysicalTopNSingleOrPartial items firstLimit firstOffset (head :: rest)) = _ :=
      lower_first_stage accepted.2 made
    refine ⟨⟨.exchangeNode items (offset.map Int.ofNat),[],unwrapOrNone count⟩,
      visitPhysicalTopNSingleOrPartial items firstLimit firstOffset (head :: rest),?_,rfl,rfl,
      ⟨rfl,getD_ofNat offset⟩,.inr ⟨_,first⟩,fun contents rows => ?_⟩
    · rw [visit, emits.visited]
      rfl
    · simp only [Supplies, first, Except.ok.injEq, exists_eq_left', PhysicalPlan.Enters, Generates,
        generate_of_visited emits.visited, made]
      constructor
      · rintro ⟨inner,⟨below,returned,window⟩,sorts⟩
        exact ⟨below,returned,inner,window,sorts⟩
      · rintro ⟨below,returned,inner,window,sorts⟩
        exact ⟨inner,⟨below,returned,window⟩,sorts⟩
  | project items child ih =>
    obtain ⟨head,rest,emits⟩ := ih accepted
    obtain ⟨tree,made⟩ := emits.lowered accepted
    refine ⟨⟨.projectNode items,[],-1⟩,head :: rest,?_,rfl,rfl,rfl,.inr ⟨tree,made⟩,
      fun contents rows => generates_iff emits.visited⟩
    rw [visit, emits.visited]
    rfl

theorem generate_accepted (accepted : plan.shape.Accepted) :
    ∃ tree, generate plan = .ok tree ∧ ∀ contents out, tree.Returns contents out ↔
      ∃ rows, plan.Enters (Generates contents) contents rows ∧ out = plan.finish rows := by
  obtain ⟨head,rest,emits⟩ := exists_emits accepted
  exact emits.generated accepted.limited

theorem generates_accepted (accepted : plan.shape.Accepted)
    (contents out : List α) : Generates contents plan out ↔
      ∃ rows, plan.Enters (Generates contents) contents rows ∧ out = plan.finish rows := by
  obtain ⟨tree,made,returns⟩ := generate_accepted accepted
  rw [← returns]
  simp [Generates, made]

/-! ### The stacks that are rejected -/

def PhysicalPlan.levels : PhysicalPlan α → List (PhysicalPlan α)
  | .leaf => [.leaf]
  | .filter predicate child => .filter predicate child :: child.levels
  | .limit count offset child => .limit count offset child :: child.levels
  | .sort items child => .sort items child :: child.levels
  | .topN items count offset child => .topN items count offset child :: child.levels
  | .splitTopN items count offset firstLimit firstOffset child =>
    .splitTopN items count offset firstLimit firstOffset child :: child.levels
  | .project items child => .project items child :: child.levels
  | .subqueryAlias child => .subqueryAlias child :: child.levels

theorem lower_sort_unlimited {place : Option Int} (body : head.body = .sortNode sortInfo true place)
    (unlimited : limitOf head = none) (tree : ExecNode α) :
    lowerNodeWithChildren (head :: rest) ≠ .ok tree := by
  intro made
  rw [lowerNodeWithChildren, body] at made
  obtain ⟨lowered,node,_⟩ := bind_ok made
  obtain ⟨child,_,sorted⟩ := bind_ok (x := lowerNodeWithChildren rest) node
  unfold lowerSortNode at sorted
  rw [unlimited] at sorted
  split at sorted <;> cases sorted

theorem Emits.limit_accepted {limit offset : Option Nat} (emits : Emits child head rest)
    (made : generate (.limit limit offset child) = .ok tree) :
    match child.shape.segment.head with
    | .sort useTopN => useTopN → limit ≠ none
    | _ => offset = none := by
  have heads := emits.heads
  rw [generate, visit, emits.visited] at made
  change (visitLimit limit offset (head :: rest)).bind _ = _ at made
  have other : (∀ sortInfo useTopN place, head.body ≠ .sortNode sortInfo useTopN place) →
      offset = none := by
    intro noNode
    rw [visitLimit_other limit offset rest noNode] at made
    cases offset with
    | none => rfl
    | some place => cases made
  cases body : head.body with
  | scanNode | projectNode =>
    rw [body] at heads
    rw [show child.shape.segment.head = .plain from heads]
    exact other (by simp [body])
  | exchangeNode sortInfo place =>
    rw [body] at heads
    rw [heads.1]
    exact other (by simp [body])
  | sortNode sortInfo useTopN place =>
    rw [body] at heads
    rw [heads.1]
    rintro rfl rfl
    rw [visitLimit, body] at made
    change lowerNodeWithChildren (⟨.sortNode sortInfo true (offset.map Int.ofNat),head.conjuncts,
      unwrapOrNone none⟩ :: rest) = _ at made
    exact lower_sort_unlimited rfl rfl tree made

theorem accepted_of_generated
    (made : ∀ level ∈ plan.levels, ∃ tree, generate level = .ok tree) : plan.shape.Accepted := by
  induction plan with
  | leaf => trivial
  | filter _ _ ih | sort _ _ ih | project _ _ ih | subqueryAlias _ ih =>
    exact ih (forall_mem_cons.mp made).2
  | limit count offset child ih =>
    obtain ⟨⟨tree,top⟩,below⟩ := forall_mem_cons.mp made
    have accepted := ih below
    obtain ⟨head,rest,emits⟩ := exists_emits accepted
    exact ⟨accepted,emits.limit_accepted top⟩
  | topN items count offset child ih =>
    obtain ⟨⟨tree,top⟩,below⟩ := forall_mem_cons.mp made
    have accepted := ih below
    obtain ⟨head,rest,emits⟩ := exists_emits accepted
    refine ⟨accepted,?_⟩
    rintro rfl
    rw [generate, visit, emits.visited] at top
    change lowerNodeWithChildren (⟨.sortNode items true (offset.map Int.ofNat),[],
      unwrapOrNone none⟩ :: head :: rest) = _ at top
    exact lower_sort_unlimited rfl rfl tree top
  | splitTopN items count offset firstLimit firstOffset child ih =>
    obtain ⟨⟨tree,top⟩,below⟩ := forall_mem_cons.mp made
    have accepted := ih below
    obtain ⟨head,rest,emits⟩ := exists_emits accepted
    refine ⟨accepted,?_⟩
    rintro rfl
    rw [generate, visit, emits.visited] at top
    change lowerNodeWithChildren (⟨.exchangeNode items (offset.map Int.ofNat),[],
      unwrapOrNone count⟩ :: visitPhysicalTopNSingleOrPartial items none firstOffset (head :: rest)) =
        _ at top
    obtain ⟨lowered,node,_⟩ := bind_ok top
    obtain ⟨sender,first,_⟩ := bind_ok
      (x := lowerNodeWithChildren (visitPhysicalTopNSingleOrPartial items none firstOffset
        (head :: rest))) node
    exact lower_sort_unlimited rfl rfl sender first

end

end NovaRocks.Codegen
