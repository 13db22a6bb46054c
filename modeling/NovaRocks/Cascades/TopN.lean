import NovaRocks.Cascades.Memo
import NovaRocks.Sql.SortOrder

/-!
ORDER BY with LIMIT. One rule fuses a limit over a sort into a TopN, the other
splits a TopN into a partial one on every instance and a final one that merges
their rows. Rows that tie may come in any order, so both are judged by the results
the original may return.
-/
namespace NovaRocks
open Relational List

def i64Max : Int :=
  2 ^ 63 - 1

def saturatingAdd (a b : Int) : Int :=
  max (-2 ^ 63) (min (a + b) i64Max)

def sortLimitToTopN (expr : MExpr) (memo : Memo) : List NewExpr :=
  match expr.op, expr.children with
  | .logicalLimit (some limit) offset, [child] =>
    match memo.groups[child]? with
    | none => []
    | some group => group.logicalExprs.filterMap fun e =>
      match e.op, e.children with
      | .logicalSort items, [grandchild] =>
        some ⟨.logicalTopN ⟨items, some limit, offset.map Int.ofNat, .finalStage, false⟩, [grandchild]⟩
      | _, _ => none
  | _, _ => []

def splitTopN (expr : MExpr) (memo : Memo) : List NewExpr × Memo :=
  match expr.op with
  | .logicalTopN src =>
    match src.limit with
    | none => ([], memo)
    | some limit =>
      let offset := max (src.offset.getD 0) 0
      if limit < 0 || 0 < offset then ([], memo)
      else
        let (partialGroup, memo') := memo.newGroup
          ⟨memo.nextExprId, .logicalTopN ⟨src.items, some (saturatingAdd limit offset), some 0,
            .partialStage, false⟩, expr.children⟩
        ([⟨.logicalTopN ⟨src.items, src.limit, src.offset, .finalStage, true⟩, [partialGroup]⟩], memo')
  | _ => ([], memo)

/-- The rule is tried on a TopN that is not the result of a split. -/
def splitTopNMatches : Operator → Bool
  | .logicalTopN op => op.phase = .finalStage && !op.isSplit
  | _ => false

namespace LogicalTopNOp

/-- Limit and offset as the node executes them: a sort node in top-n mode asks for
a limit, the merging exchange of a split does not. -/
def bounds (op : LogicalTopNOp) : Except String (Option Nat × Nat) :=
  let offset := op.offset.getD 0
  match op.phase, op.isSplit with
  | .finalStage, true =>
    if offset < 0 then .error "EXCHANGE_NODE offset must be >= 0"
    else .ok (op.limit.bind fun l => if l < 0 then none else some l.toNat, offset.toNat)
  | _, _ =>
    if offset < 0 then .error "SORT_NODE offset must be >= 0"
    else match op.limit with
      | none => .error "use_top_n=true requires node.limit >= 0"
      | some l =>
        if l < 0 then .error "use_top_n=true requires node.limit >= 0"
        else .ok (some l.toNat, offset.toNat)

end LogicalTopNOp

def LogicalTopNOp.Returns (op : LogicalTopNOp) (i : Interp) (env : Row → Env) (input out : List Row) : Prop :=
  ∃ limit offset, op.bounds = .ok (limit, offset) ∧
    ∃ sorted, Sorts (rowBefore i env op.items) input sorted ∧ out = limitRows limit offset sorted

/-- Ties aside, a TopN has one result. -/
theorem LogicalTopNOp.Returns.keys_eq {op : LogicalTopNOp} (ordered : i.Ordered)
    (one : op.Returns i env input out) (other : op.Returns i env input out') :
    out.map (sortKeys i env op.items) = out'.map (sortKeys i env op.items) := by
  obtain ⟨limit,offset,bounds,sorted,sorts,rfl⟩ := one
  obtain ⟨limit',offset',bounds',sorted',sorts',rfl⟩ := other
  cases bounds.symm.trans bounds'
  have arranged : ∀ {rows : List Row}, rows.Pairwise (rowBefore i env op.items) →
      (rows.map (sortKeys i env op.items)).Pairwise fun a b => keysBefore i op.items a b = true :=
    fun sorted => pairwise_map.mpr sorted
  have keys : sorted.map (sortKeys i env op.items) = sorted'.map (sortKeys i env op.items) := by
    refine ((sorts.1.trans sorts'.1.symm).map _).eq_of_pairwise ?_ (arranged sorts.2) (arranged sorts'.2)
    intro a b inA inB first second
    obtain ⟨x,-,rfl⟩ := mem_map.mp inA
    obtain ⟨y,-,rfl⟩ := mem_map.mp inB
    exact keysBefore_antisymm ordered (sortKeys_length env _ x) (sortKeys_length env _ y) first second
  cases limit <;> simp only [limitRows, map_take, map_drop, keys]

theorem splitTopN_adds (added : alternative ∈ (splitTopN expr memo).1) :
    ∃ op limit group id, expr.op = .logicalTopN op ∧ op.limit = some limit ∧ 0 ≤ limit ∧
      op.offset.getD 0 ≤ 0 ∧
      alternative = ⟨.logicalTopN ⟨op.items, op.limit, op.offset, .finalStage, true⟩, [group]⟩ ∧
      ((splitTopN expr memo).2.groups[group]?).map (fun g => g.logicalExprs ++ g.physicalExprs) =
        some [⟨id, .logicalTopN ⟨op.items, some (saturatingAdd limit 0), some 0, .partialStage, false⟩,
          expr.children⟩] := by
  cases isTopN : expr.op with
  | logicalTopN op =>
    cases isLimit : op.limit with
    | none =>
      simp [splitTopN, isTopN, isLimit] at added
    | some limit =>
      by_cases refused : limit < 0 ∨ 0 < op.offset.getD 0
      · simp [splitTopN, isTopN, isLimit, refused] at added
      · have noOffset : max (op.offset.getD 0) 0 = 0 := by omega
        have positive : ¬ limit < 0 := by omega
        simp only [splitTopN, isTopN, isLimit, noOffset, positive, lt_irrefl] at added ⊢
        rw [← isLimit] at added
        exact ⟨op,limit,_,_,rfl,isLimit,by omega,by omega,mem_singleton.mp added,memo.newGroup_lookup _⟩
  | _ => simp [splitTopN, isTopN] at added

theorem splitTopN_of_limit (isTopN : expr.op = .logicalTopN op) (isLimit : op.limit = some limit)
    (positive : 0 ≤ limit) (noOffset : op.offset.getD 0 ≤ 0) : (splitTopN expr memo).1 ≠ [] := by
  have zero : max (op.offset.getD 0) 0 = 0 := by omega
  have whole : ¬ limit < 0 := by omega
  simp [splitTopN, isTopN, isLimit, zero, whole]

theorem mem_sortLimitToTopN : alternative ∈ sortLimitToTopN expr memo ↔
    ∃ limit offset child group sort items grandchild,
      expr.op = .logicalLimit (some limit) offset ∧ expr.children = [child] ∧
      memo.groups[child]? = some group ∧ sort ∈ group.logicalExprs ∧
      sort.op = .logicalSort items ∧ sort.children = [grandchild] ∧
      alternative = ⟨.logicalTopN ⟨items, some (limit : Int), offset.map Int.ofNat, .finalStage, false⟩,
        [grandchild]⟩ := by
  constructor
  · intro added
    unfold sortLimitToTopN at added
    split at added
    · rename_i limit offset child isLimit children
      split at added
      · cases added
      · rename_i group found
        obtain ⟨sort,inside,made⟩ := mem_filterMap.mp added
        split at made
        · rename_i items grandchild isSort below
          cases made
          exact ⟨limit,offset,child,group,sort,items,grandchild,isLimit,children,found,inside,
            isSort,below,rfl⟩
        · cases made
    · cases added
  · rintro ⟨limit,offset,child,group,sort,items,grandchild,isLimit,children,found,inside,isSort,below,rfl⟩
    simp only [sortLimitToTopN, isLimit, children, found]
    exact mem_filterMap.mpr ⟨sort,inside,by rw [isSort, below]⟩

structure Stages (op : LogicalTopNOp) (limit : Nat) (stages : LogicalTopNOp × LogicalTopNOp) : Prop where
  same : stages.1.items = op.items ∧ stages.2.items = op.items
  whole : op.bounds = .ok (some limit, 0)
  first : stages.1.bounds = .ok (some limit, 0)
  last : stages.2.bounds = .ok (some limit, 0)

namespace Stages
theorem returns_iff {top : LogicalTopNOp} (bounds : top.bounds = .ok (some limit, 0)) :
    top.Returns i env input out ↔ TopN (rowBefore i env top.items) limit 0 input out := by
  constructor
  · rintro ⟨limit',offset',bounds',sorted,sorts,rfl⟩
    cases bounds.symm.trans bounds'
    exact ⟨sorted,sorts,rfl⟩
  · rintro ⟨sorted,sorts,rfl⟩
    exact ⟨some limit,0,bounds,sorted,sorts,rfl⟩

theorem sound (split' : Stages op limit stages) (ordered : i.Ordered)
    (firsts : Forall₂ (stages.1.Returns i env) parts outs)
    (last : stages.2.Returns i env outs.flatten out) : op.Returns i env parts.flatten out := by
  rw [returns_iff split'.whole]
  rw [returns_iff split'.last, split'.same.2] at last
  have cuts : Forall₂ (TopN (rowBefore i env op.items) (0 + limit) 0) parts outs := by
    refine firsts.imp ?_
    intro part cut top
    rwa [returns_iff split'.first, split'.same.1, ← Nat.zero_add limit] at top
  exact TopN.of_parts (rowBefore_total ordered env op.items) (rowBefore_trans ordered env op.items) cuts last

theorem runs (split' : Stages op limit stages) (ordered : i.Ordered) (parts : List (List Row)) :
    ∃ outs out, Forall₂ (stages.1.Returns i env) parts outs ∧ stages.2.Returns i env outs.flatten out := by
  have stage : ∀ {top : LogicalTopNOp}, top.bounds = .ok (some limit, 0) → ∀ input,
      ∃ out, top.Returns i env input out := by
    intro top bounds input
    exact ⟨_,some limit,0,bounds,_,sortRows_sorts ordered env top.items input,rfl⟩
  have each : ∃ outs, Forall₂ (stages.1.Returns i env) parts outs := by
    induction parts with
    | nil => exact ⟨[],.nil⟩
    | cons part parts ih =>
      obtain ⟨outs,all⟩ := ih
      obtain ⟨out,one⟩ := stage split'.first part
      exact ⟨out :: outs,.cons one all⟩
  obtain ⟨outs,all⟩ := each
  obtain ⟨out,last⟩ := stage split'.last outs.flatten
  exact ⟨outs,out,all,last⟩

end Stages

theorem saturatingAdd_zero (positive : 0 ≤ limit) (fits : limit ≤ i64Max) :
    saturatingAdd limit 0 = limit := by
  unfold saturatingAdd i64Max at *
  omega

theorem stages_of_split
    (unsplit : op.isSplit = false) (isLimit : op.limit = some limit) (positive : 0 ≤ limit)
    (fits : limit ≤ i64Max) (noOffset : op.offset.getD 0 = 0) :
    Stages op limit.toNat
      (⟨op.items, some (saturatingAdd limit 0), some 0, .partialStage, false⟩,
        ⟨op.items, op.limit, op.offset, .finalStage, true⟩) := by
  have whole : ¬ limit < 0 := by omega
  refine ⟨⟨rfl,rfl⟩,?_,?_,?_⟩
  · simp [LogicalTopNOp.bounds, unsplit, isLimit, noOffset, whole]
  · simp [LogicalTopNOp.bounds, saturatingAdd_zero positive fits, whole]
  · simp [LogicalTopNOp.bounds, isLimit, noOffset, whole]

/-- Both rules. SplitTopN adds its alternative for a limit without an offset, SortLimitToTopN for
a sort below a limit; an alternative returns only what the original may return, with the keys of any
other such result, and it does return. -/
theorem topN_rules_sound {i : Interp} (ordered : i.Ordered) (expr : MExpr) (memo : Memo) :
    (∀ op, expr.op = .logicalTopN op → splitTopNMatches expr.op = true →
      (∀ limit, op.limit = some limit → limit ≤ i64Max) →
      ((splitTopN expr memo).1 ≠ [] ↔ (∃ limit, op.limit = some limit ∧ 0 ≤ limit) ∧ op.offset.getD 0 ≤ 0) ∧
      ∀ alternative ∈ (splitTopN expr memo).1, ∃ final first group id,
        alternative = ⟨.logicalTopN final, [group]⟩ ∧
        ((splitTopN expr memo).2.groups[group]?).map (fun g => g.logicalExprs ++ g.physicalExprs) =
          some [⟨id, .logicalTopN first, expr.children⟩] ∧
        ∀ (env : Row → Env) (parts : List (List Row)),
          (∀ outs out, Forall₂ (first.Returns i env) parts outs →
            final.Returns i env outs.flatten out → op.Returns i env parts.flatten out ∧
              ∀ single, op.Returns i env parts.flatten single →
                out.map (sortKeys i env op.items) = single.map (sortKeys i env op.items)) ∧
          ((∃ out, op.Returns i env parts.flatten out) →
            ∃ outs out, Forall₂ (first.Returns i env) parts outs ∧
              final.Returns i env outs.flatten out)) ∧
    (∀ alternative, alternative ∈ sortLimitToTopN expr memo ↔
      ∃ limit offset child group sort items grandchild,
        expr.op = .logicalLimit (some limit) offset ∧ expr.children = [child] ∧
        memo.groups[child]? = some group ∧ sort ∈ group.logicalExprs ∧
        sort.op = .logicalSort items ∧ sort.children = [grandchild] ∧
        alternative = ⟨.logicalTopN ⟨items, some (limit : Int), offset.map Int.ofNat, .finalStage, false⟩,
          [grandchild]⟩) ∧
    ∀ (items : List SortItem) (limit : Nat) (offset : Option Nat) (env : Row → Env) (input : List Row),
      (∀ out, LogicalTopNOp.Returns ⟨items, some (limit : Int), offset.map Int.ofNat, .finalStage, false⟩
          i env input out ↔
        ∃ sorted, Sorts (rowBefore i env items) input sorted ∧
          out = limitRows (some limit) (offset.getD 0) sorted) ∧
      ∃ out, LogicalTopNOp.Returns ⟨items, some (limit : Int), offset.map Int.ofNat, .finalStage, false⟩
        i env input out := by
  refine ⟨?_,fun _ => mem_sortLimitToTopN,?_⟩
  · intro op isTopN tried fits
    refine ⟨⟨?_,?_⟩,?_⟩
    · intro added
      obtain ⟨alternative,member⟩ := exists_mem_of_ne_nil _ added
      obtain ⟨op',limit,_,_,isTopN',isLimit,positive,noOffset,-⟩ := splitTopN_adds member
      cases isTopN.symm.trans isTopN'
      exact ⟨⟨limit,isLimit,positive⟩,noOffset⟩
    · rintro ⟨⟨limit,isLimit,positive⟩,noOffset⟩
      exact splitTopN_of_limit isTopN isLimit positive noOffset
    intro alternative added
    obtain ⟨op',limit,group,id,isTopN',isLimit,positive,noOffset,rfl,lookup⟩ :=
      splitTopN_adds added
    rw [isTopN] at isTopN' tried
    cases isTopN'
    obtain ⟨-,unsplit⟩ : op.phase = .finalStage ∧ op.isSplit = false := by
      simpa [splitTopNMatches] using tried
    refine ⟨_,_,group,id,rfl,lookup,?_⟩
    intro env parts
    rcases Int.lt_or_eq_of_le noOffset with below | exactly
    · -- a negative offset is refused by both plans
      constructor
      · rintro outs out _ ⟨_,_,bounds,_⟩
        simp [LogicalTopNOp.bounds, below] at bounds
      · rintro ⟨out,_,_,bounds,_⟩
        simp [LogicalTopNOp.bounds, below, unsplit] at bounds
    · have stages := stages_of_split unsplit isLimit positive (fits limit isLimit) exactly
      refine ⟨fun outs out firsts last => ?_,fun _ => stages.runs ordered parts⟩
      have whole := stages.sound ordered firsts last
      exact ⟨whole,fun single other => whole.keys_eq ordered other⟩
  · intro items limit offset env input
    have bounds : (LogicalTopNOp.mk items (some (limit : Int)) (offset.map Int.ofNat) .finalStage
        false).bounds = .ok (some limit, offset.getD 0) := by
      cases offset with
      | none => simp [LogicalTopNOp.bounds]
      | some n => rfl
    refine ⟨fun out => ⟨?_,?_⟩,?_⟩
    · rintro ⟨_,_,bounds',sorted,sorts,rfl⟩
      rw [bounds] at bounds'
      cases bounds'
      exact ⟨sorted,sorts,rfl⟩
    · rintro ⟨sorted,sorts,rfl⟩
      exact ⟨_,_,bounds,sorted,sorts,rfl⟩
    · exact ⟨_,_,_,bounds,_,sortRows_sorts ordered env items input,rfl⟩

def orderedInterp : Interp :=
  { intInterp with less := Value.less }

theorem orderedInterp_ordered : orderedInterp.Ordered :=
  ⟨Value.less_irrefl,Value.less_trans,fun _ _ different _ _ => Value.less_total different⟩

def byScore : List SortItem :=
  [⟨.column none "score", false, false⟩]

def bestScores : LogicalTopNOp :=
  ⟨byScore, some 2, none, .finalStage, false⟩

def scoresMemo : Memo :=
  ⟨[⟨0, [⟨0, .logicalUnion true, []⟩], [], none⟩, ⟨1, [⟨1, .logicalSort byScore, [0]⟩], [], none⟩]⟩

theorem topN_rules_sound_scores :
    (∃ alternative ∈ (splitTopN ⟨2, .logicalTopN bestScores, [0]⟩ scoresMemo).1,
      ∃ final first : LogicalTopNOp, ∃ group, alternative = ⟨.logicalTopN final, [group]⟩ ∧
        ∀ (env : Row → Env) (parts outs : List (List Row)) (out : List Row),
          Forall₂ (first.Returns orderedInterp env) parts outs →
          final.Returns orderedInterp env outs.flatten out →
          bestScores.Returns orderedInterp env parts.flatten out) ∧
    ⟨.logicalTopN bestScores, [0]⟩ ∈ sortLimitToTopN ⟨2, .logicalLimit (some 2) none, [1]⟩ scoresMemo ∧
      ∀ (env : Row → Env) (input out : List Row), bestScores.Returns orderedInterp env input out →
        ∃ sorted, Sorts (rowBefore orderedInterp env byScore) input sorted ∧ out = sorted.take 2 := by
  constructor
  · obtain ⟨alternative,added⟩ : ∃ alternative,
        alternative ∈ (splitTopN ⟨2,.logicalTopN bestScores,[0]⟩ scoresMemo).1 :=
      ⟨_,mem_singleton_self _⟩
    obtain ⟨final,first,group,_,same,_,sound⟩ :=
      ((topN_rules_sound orderedInterp_ordered ⟨2,.logicalTopN bestScores,[0]⟩ scoresMemo).1 bestScores
        rfl rfl (fun limit same => by cases same; decide)).2 alternative added
    exact ⟨alternative,added,final,first,group,same,fun env parts outs out firsts last =>
      ((sound env parts).1 outs out firsts last).1⟩
  · have fused := (topN_rules_sound orderedInterp_ordered ⟨2,.logicalLimit (some 2) none,[1]⟩ scoresMemo).2
    refine ⟨(fused.1 _).mpr ⟨2,none,1,_,_,byScore,0,rfl,rfl,rfl,mem_singleton_self _,rfl,rfl,rfl⟩,?_⟩
    intro env input out returned
    exact ((fused.2 byScore 2 none env input).1 out).mp returned

end NovaRocks
