import NovaRocks.Rbo.OrFactoring
import NovaRocks.Sql.Origins
import NovaRocks.Relational.Masks

/-!
The graph behind a chain of inner and cross joins: its leaf relations and, for
each conjunct of its conditions and filters, the set of relations the conjunct
touches. Sets of relations are the bits of a 32-bit word.
-/
namespace NovaRocks
open Relational List

abbrev RelationMask := BitVec 32

structure JoinGraph where
  relations : List LogicalPlan
  predicates : List (TypedExpr × RelationMask)

def JoinKind.reorders : JoinKind → Bool
  | .inner | .cross => true
  | _ => false

/-- Leaf relations and conjuncts, in the order they are met. A filter right
above a join of the chain belongs to the chain. -/
def flattenInnerJoins : LogicalPlan → List LogicalPlan × List TypedExpr
  | .join left right kind condition =>
    if kind.reorders then
      let l := flattenInnerJoins left
      let r := flattenInnerJoins right
      (l.1 ++ r.1, l.2 ++ r.2 ++ condition.toList.flatMap splitAnd)
    else ([.join left right kind condition], [])
  | .filter (.join left right kind condition) predicate =>
    if kind.reorders then
      let chain := flattenInnerJoins (.join left right kind condition)
      (chain.1, splitAnd predicate ++ chain.2)
    else ([.filter (.join left right kind condition) predicate], [])
  | plan => ([plan], [])

def connects (left right mask : RelationMask) : Bool :=
  mask &&& left != 0#32 && mask &&& right != 0#32 && mask &&& ~~~(left ||| right) == 0#32

def collectJoinPredicates (predicates : List (TypedExpr × RelationMask))
    (left right : RelationMask) : List (TypedExpr × RelationMask) :=
  predicates.filter fun p => connects left right p.2

def findConnectingPredicates (predicates : List (TypedExpr × RelationMask))
    (left right : RelationMask) : List TypedExpr :=
  (collectJoinPredicates predicates left right).map Prod.fst

def combineConditions : List TypedExpr → Option TypedExpr
  | [] => none
  | e :: rest => some (combineAnd e rest)

/-- The join of two finished parts under the predicates that connect them. -/
def joinParts (left right : LogicalPlan) (connecting : List TypedExpr) : LogicalPlan :=
  let condition := combineConditions connecting
  .join left right (if condition.isSome then .inner else .cross) condition

section
variable {left right mask : RelationMask}

theorem connects_comm : connects left right mask = connects right left mask := by
  unfold connects
  rw [BitVec.or_comm left right, Bool.and_comm (mask &&& left != 0#32)]

theorem findConnectingPredicates_comm :
    findConnectingPredicates predicates left right = findConnectingPredicates predicates right left := by
  unfold findConnectingPredicates collectJoinPredicates
  simp only [connects_comm]

theorem connects_iff :
    connects left right mask = true ↔ (∃ i, mask.getLsbD i = true ∧ left.getLsbD i = true) ∧
        (∃ i, mask.getLsbD i = true ∧ right.getLsbD i = true) ∧
        Mask.Within mask (left ||| right) := by
  unfold connects
  rw [Bool.and_eq_true, Bool.and_eq_true, Mask.touches_iff, Mask.touches_iff, Mask.within_iff, and_assoc]

/-- A predicate lies inside a set of relations and touches two of them. -/
def joinsWithin (relations mask : RelationMask) : Bool :=
  mask &&& ~~~relations == 0#32 && decide (2 ≤ Mask.size mask)

theorem joinsWithin_iff :
    joinsWithin relations mask = true ↔ Mask.Within mask relations ∧
      ∃ i j, i ≠ j ∧ mask.getLsbD i = true ∧ mask.getLsbD j = true := by
  rw [joinsWithin, Bool.and_eq_true, Mask.within_iff, decide_eq_true_eq, Mask.two_le_size_iff]

theorem joinsWithin_union (apart : left &&& right = 0#32) (mask : RelationMask) :
    joinsWithin (left ||| right) mask = true ↔ joinsWithin left mask = true ∨
      joinsWithin right mask = true ∨ connects left right mask = true := by
  have side : ∀ {i}, Mask.Within mask (left ||| right) → mask.getLsbD i = true →
      left.getLsbD i = true ∨ right.getLsbD i = true := by
    intro i within found
    simpa using within i found
  rw [connects_iff, joinsWithin_iff, joinsWithin_iff, joinsWithin_iff]
  constructor
  · rintro ⟨within,two⟩
    by_cases inLeft : Mask.Within mask left
    · exact .inl ⟨inLeft,two⟩
    by_cases inRight : Mask.Within mask right
    · exact .inr (.inl ⟨inRight,two⟩)
    unfold Mask.Within at inLeft inRight
    push Not at inLeft inRight
    obtain ⟨i,found,notLeft⟩ := inLeft
    obtain ⟨j,found',notRight⟩ := inRight
    refine .inr (.inr ⟨⟨j,found',?_⟩,⟨i,found,?_⟩,within⟩)
    · exact (side within found').resolve_right notRight
    · exact (side within found).resolve_left notLeft
  · rintro (⟨within,two⟩ | ⟨within,two⟩ | ⟨⟨i,found,inLeft⟩,⟨j,found',inRight⟩,within⟩)
    · refine ⟨fun k bit => ?_,two⟩
      simp [within k bit]
    · refine ⟨fun k bit => ?_,two⟩
      simp [within k bit]
    · refine ⟨within,i,j,?_,found,found'⟩
      rintro rfl
      rw [Mask.disjoint_bits apart inLeft] at inRight
      cases inRight

end

theorem foldlM_checked {α β : Type} {step : β → α → Option β} {next : β → α → β} {passes : α → Bool}
    (checked : ∀ b a, step b a = if passes a then some (next b a) else none) (items : List α) (b : β) :
    items.foldlM step b = if items.all passes then some (items.foldl next b) else none := by
  induction items generalizing b with
  | nil => rfl
  | cons a items ih =>
    rw [foldlM_cons, checked, all_cons]
    cases passes a with
    | true => exact ih (next b a)
    | false => rfl

section
variable {relations : List LogicalPlan}

/-- The part of the chain under `plan` has its relations from position `base` on. -/
def PartAt (relations : List LogicalPlan) (base : Nat) (plan : LogicalPlan) : Prop :=
  ∀ j relation, (flattenInnerJoins plan).1[j]? = some relation → relations[base + j]? = some relation

theorem PartAt.sides (part : PartAt relations base (.join l r kind condition)) (reorders : kind.reorders = true) :
    PartAt relations base l ∧ PartAt relations (base + (flattenInnerJoins l).1.length) r := by
  unfold PartAt at part ⊢
  rw [flattenInnerJoins, if_pos reorders] at part
  refine ⟨fun j relation here => part j relation ?_,fun j relation here => ?_⟩
  · rw [getElem?_append_left (List.getElem?_eq_some_iff.mp here).1]
    exact here
  · rw [Nat.add_assoc]
    apply part
    rw [getElem?_append_right (Nat.le_add_right ..), Nat.add_sub_cancel_left]
    exact here

end

section
variable [CaseFolding]

/-- Some top-level conjunct is an equality of two columns. -/
def hasEquijoinPredicate : TypedExpr → Bool
  | ⟨.nested e, _, _⟩ => hasEquijoinPredicate e
  | ⟨.binaryOp l .and r, _, _⟩ => hasEquijoinPredicate l || hasEquijoinPredicate r
  | e => (columnEq e).isSome

def isAnyEq (e : TypedExpr) : Bool :=
  (columnEq e).isSome

def factorCommonEqFromOrForReorder (e : TypedExpr) : List TypedExpr × Option TypedExpr :=
  factorCommonEq isAnyEq e

/-- A disjunction gives up the equalities its branches share. -/
def expandPredicate (e : TypedExpr) : List TypedExpr :=
  match factorCommonEqFromOrForReorder e with
  | ([], _) => [e]
  | (factored, remaining) => factored ++ remaining.toList

def relationMask (relationColumns : List (List QualifiedRef)) (e : TypedExpr) : RelationMask :=
  (collectQualifiedColumnRefs e).foldl (fun mask r =>
    relationColumns.zipIdx.foldl (fun mask (columns, i) =>
      if columns.contains r then mask ||| Mask.bit i else mask) mask) 0#32

def extractJoinGraph (plan : LogicalPlan) : Option JoinGraph :=
  let chain := flattenInnerJoins plan
  if chain.1.length < 2 then none
  else
    let relationColumns := chain.1.map collectQualifiedOutputColumns
    some ⟨chain.1, (chain.2.flatMap expandPredicate).map fun e =>
      (e, relationMask relationColumns e)⟩

theorem relationMask_bit_iff (k : Nat) : (relationMask columns e).getLsbD k = true ↔
    k < 32 ∧ ∃ c, columns[k]? = some c ∧ ∃ r ∈ collectQualifiedColumnRefs e, r ∈ c := by
  have one : ∀ i, (Mask.bit i : RelationMask).getLsbD k = (decide (k < 32) && decide (k = i)) := by
    intro i
    rw [Mask.bit, ← BitVec.twoPow_eq, BitVec.getLsbD_twoPow]
    by_cases same : i = k
    · simp [same]
    · simp [same, Ne.symm same]
  have inner : ∀ (mask : RelationMask) (r : QualifiedRef),
      (columns.zipIdx.foldl (fun mask (c, i) =>
          if c.contains r then mask ||| Mask.bit i else mask) mask).getLsbD k =
        (mask.getLsbD k || columns.zipIdx.any fun ci =>
          ci.1.contains r && (decide (k < 32) && decide (k = ci.2))) := by
    intro mask r
    apply Mask.getLsbD_foldl
    rintro m ⟨c,i⟩ -
    by_cases listed : r ∈ c <;> simp [listed, one]
  unfold relationMask
  rw [Mask.getLsbD_foldl fun m r _ => inner m r]
  simp only [BitVec.getLsbD_zero, Bool.false_or, any_eq_true, Bool.and_eq_true,
    contains_iff_mem, decide_eq_true_eq, mem_zipIdx_iff_getElem?]
  constructor
  · rintro ⟨r,read,⟨c,i⟩,found,listed,small,rfl⟩
    exact ⟨small,c,found,r,read,listed⟩
  · rintro ⟨small,c,found,r,read,listed⟩
    exact ⟨r,read,(c, k),found,listed,small,rfl⟩

/-- The mask as the loop builds it, with the overflow check of `1u32 << i`. -/
def checkedRelationMask (relationColumns : List (List QualifiedRef)) (e : TypedExpr) : Option RelationMask :=
  (collectQualifiedColumnRefs e).foldlM (fun mask r =>
    relationColumns.zipIdx.foldlM (fun mask (columns, i) =>
      if columns.contains r then if i < 32 then some (mask ||| Mask.bit i) else none
      else some mask) mask) 0#32

theorem checkedRelationMask_eq : checkedRelationMask columns e =
    if (collectQualifiedColumnRefs e).all fun r =>
        columns.zipIdx.all fun ci => !ci.1.contains r || decide (ci.2 < 32)
    then some (relationMask columns e) else none := by
  apply foldlM_checked
  intro mask r
  apply foldlM_checked
  rintro mask ⟨c,i⟩
  by_cases listed : r ∈ c <;> by_cases small : i < 32 <;> simp [listed]

/-- The relation a column of the chain is taken from, the relations counted from `base`. -/
def chainOrigin (i : Interp) (base : Nat) : LogicalPlan → Origin Nat
  | .join left right kind condition =>
    if kind.reorders then
      (chainOrigin i base left).merge
        (chainOrigin i (base + (flattenInnerJoins left).1.length) right)
    else .ofInput base (scopeOf i (.join left right kind condition))
  | .filter (.join left right kind condition) predicate =>
    if kind.reorders then chainOrigin i base (.join left right kind condition)
    else .ofInput base (scopeOf i (.filter (.join left right kind condition) predicate))
  | plan => .ofInput base (scopeOf i plan)

/-- Where a predicate made of the conjunct `whole` of a join condition has its columns from.
The alternatives of a disjunction read the joined row; equalities elsewhere are hash keys. -/
def takenAt (i : Interp) (left right : Origin Nat) (whole e : TypedExpr) : List (Option Nat) :=
  if (splitOrBranches whole).length = 1 then (joinConjuncts e).flatMap (Origin.taken i left right)
  else (reads i e).map (left.merge right)

/-- The predicates of the graph, each with the relations it reads where it stands. -/
def placedPredicates (i : Interp) (base : Nat) : LogicalPlan → List (TypedExpr × List (Option Nat))
  | .join left right kind condition =>
    if kind.reorders then
      let next := base + (flattenInnerJoins left).1.length
      placedPredicates i base left ++ placedPredicates i next right ++
        (condition.toList.flatMap splitAnd).flatMap fun whole => (expandPredicate whole).map fun e =>
          (e, takenAt i (chainOrigin i base left) (chainOrigin i next right) whole e)
    else []
  | .filter (.join left right kind condition) predicate =>
    if kind.reorders then
      ((splitAnd predicate).flatMap fun whole => (expandPredicate whole).map fun e =>
        (e, (reads i e).map (chainOrigin i base (.join left right kind condition)))) ++
        placedPredicates i base (.join left right kind condition)
    else []
  | _ => []

theorem placedPredicates_fst (i : Interp) (base : Nat) (plan : LogicalPlan) :
    (placedPredicates i base plan).map Prod.fst = (flattenInnerJoins plan).2.flatMap expandPredicate := by
  fun_induction flattenInnerJoins plan generalizing base with
  | case1 left right kind condition reorders l r ihl ihr =>
    rw [placedPredicates, if_pos reorders]
    simp [ihl, ihr, l, r, map_flatMap, Function.comp_def]
  | case3 left right kind condition predicate reorders chain ih =>
    rw [placedPredicates, if_pos reorders]
    simp [ih, chain, map_flatMap, Function.comp_def]
  | case2 | case4 | case5 => simp_all [placedPredicates]

section
variable {i : Interp} {relations : List LogicalPlan} {left right origin : Origin Nat}

def TakenFrom (i : Interp) (relations : List LogicalPlan) (r : QualifiedRef) (taken : Option Nat) : Prop :=
  ∀ k, taken = some k → ∃ relation, relations[k]? = some relation ∧ (scopeOf i relation).resolves r = true

def Origin.Sound (i : Interp) (relations : List LogicalPlan) (origin : Origin Nat) : Prop :=
  ∀ r, TakenFrom i relations r (origin r)

theorem Origin.Sound.merge (first : Sound i relations left) (second : Sound i relations right) :
    Sound i relations (left.merge right) := by
  intro r k found
  unfold Origin.merge at found
  split at found
  · rcases Option.or_eq_some_iff.mp found with here | ⟨-,here⟩
    · exact first r k here
    · exact second r k here
  · rcases Option.or_eq_some_iff.mp found with here | ⟨-,here⟩
    · exact second r k here
    · exact first r k here

theorem Origin.Sound.ofInput (here : relations[k]? = some plan) :
    Sound i relations (Origin.ofInput k (scopeOf i plan)) := by
  intro r k' found
  unfold Origin.ofInput at found
  split at found <;> cases found
  exact ⟨plan,here,‹_›⟩

theorem chainOrigin_sound (base : Nat) (plan : LogicalPlan) (part : PartAt relations base plan) :
    Origin.Sound i relations (chainOrigin i base plan) := by
  fun_induction chainOrigin i base plan with
  | case1 base left right kind condition reorders ihl ihr =>
    obtain ⟨first,second⟩ := part.sides reorders
    exact (ihl first).merge (ihr second)
  | case3 base left right kind condition predicate reorders ih =>
    apply ih
    rwa [PartAt, flattenInnerJoins, if_pos reorders] at part
  | case2 | case4 | case5 =>
    refine .ofInput (part 0 _ ?_)
    simp_all [flattenInnerJoins]

theorem taken_reads (first : left.Sound i relations) (second : right.Sound i relations) (e : TypedExpr) :
    Forall₂ (TakenFrom i relations) (reads i e) (Origin.taken i left right e) := by
  unfold Origin.taken
  split
  · rename_i x y eq
    rw [reads_columnEq eq]
    split
    · exact .cons (first x) (.cons (second y) .nil)
    · split
      · exact .cons (second x) (.cons (first y) .nil)
      · exact .cons (first.merge second x) (.cons (first.merge second y) .nil)
  · rw [forall₂_map_right_iff, forall₂_same]
    exact fun r _ => first.merge second r

theorem takenAt_reads (first : left.Sound i relations) (second : right.Sound i relations)
    (whole e : TypedExpr) : Forall₂ (TakenFrom i relations) (reads i e) (takenAt i left right whole e) := by
  unfold takenAt
  split
  · rw [reads, refsWith_joinConjuncts]
    generalize joinConjuncts e = conjuncts
    induction conjuncts with
    | nil => exact .nil
    | cons c rest ih => exact rel_append (taken_reads first second c) ih
  · rw [forall₂_map_right_iff, forall₂_same]
    exact fun r _ => first.merge second r

theorem placedPredicates_reads (base : Nat) (plan : LogicalPlan) (part : PartAt relations base plan) :
    ∀ p ∈ placedPredicates i base plan, Forall₂ (TakenFrom i relations) (reads i p.1) p.2 := by
  fun_induction placedPredicates i base plan with
  | case1 base left right kind condition reorders next ihl ihr =>
    obtain ⟨first,second⟩ := part.sides reorders
    intro p member
    simp only [mem_append, mem_flatMap, mem_map] at member
    obtain (inLeft | inRight) | ⟨whole,-,e,-,rfl⟩ := member
    · exact ihl first p inLeft
    · exact ihr second p inRight
    · exact takenAt_reads (chainOrigin_sound _ _ first) (chainOrigin_sound _ _ second) whole e
  | case3 base left right kind condition predicate reorders ih =>
    rw [PartAt, flattenInnerJoins, if_pos reorders] at part
    intro p member
    simp only [mem_append, mem_flatMap, mem_map] at member
    obtain ⟨whole,-,e,-,rfl⟩ | inside := member
    · rw [forall₂_map_right_iff, forall₂_same]
      exact fun r _ => chainOrigin_sound _ _ part r
    · exact ih part p inside
  | case2 | case4 | case5 => simp

end

/-- The mask of every predicate comes out, and its bits are the relations the predicate
reads a column of. -/
def MasksIdentify (i : Interp) (plan : LogicalPlan) : Prop :=
  ∀ p ∈ placedPredicates i 0 plan, ∃ mask,
    checkedRelationMask ((flattenInnerJoins plan).1.map collectQualifiedOutputColumns) p.1 = some mask ∧
    ∀ k, mask.getLsbD k = true ↔ some k ∈ p.2

def Lists (relation : LogicalPlan) (e : TypedExpr) : Prop :=
  ∃ r ∈ collectQualifiedColumnRefs e, r ∈ collectQualifiedOutputColumns relation

/-- Every column the predicate mentions is found where it stands, and one relation of the
chain answers to it, which is also the only one that lists it. -/
structure ReadPlainly (i : Interp) (relations : List LogicalPlan) (p : TypedExpr × List (Option Nat)) :
    Prop where
  mentions : collectQualifiedColumnRefs p.1 = reads i p.1
  found : none ∉ p.2
  listed : ∀ r ∈ reads i p.1, ∀ relation ∈ relations,
    r ∈ collectQualifiedOutputColumns relation ↔ (scopeOf i relation).resolves r = true
  single : ∀ r ∈ reads i p.1, ∀ (j : Nat) relation, relations[j]? = some relation → ∀ (k : Nat) relation',
    relations[k]? = some relation' → (scopeOf i relation).resolves r = true →
      (scopeOf i relation').resolves r = true → j = k

section
variable {i : Interp} {relations : List LogicalPlan} {p : TypedExpr × List (Option Nat)}
  (reading : Forall₂ (TakenFrom i relations) (reads i p.1) p.2)
include reading

theorem relation_of_taken (taken : some k ∈ p.2) : ∃ r ∈ reads i p.1, ∃ relation,
    relations[k]? = some relation ∧ (scopeOf i relation).resolves r = true := by
  obtain ⟨n,bound,here⟩ := mem_iff_getElem.mp taken
  have read : n < (reads i p.1).length := by rw [reading.length_eq]; exact bound
  exact ⟨_,getElem_mem read,reading.get read bound k (by simpa using here)⟩

theorem ReadPlainly.lists_iff (plain : ReadPlainly i relations p) (here : relations[k]? = some relation) :
    Lists relation p.1 ↔ some k ∈ p.2 := by
  have member := mem_of_getElem? here
  unfold Lists
  rw [plain.mentions]
  constructor
  · rintro ⟨r,read,listed⟩
    have answers := (plain.listed r read relation member).mp listed
    obtain ⟨n,bound,rfl⟩ := mem_iff_getElem.mp read
    have bound' : n < p.2.length := by rw [← reading.length_eq]; exact bound
    have inside := getElem_mem bound'
    cases taken : p.2[n] with
    | none => exact (plain.found (taken ▸ inside)).elim
    | some j =>
      obtain ⟨relation',there,answers'⟩ := reading.get bound bound' j (by simpa using taken)
      have same := plain.single _ read k relation here j relation' there answers (by simpa using answers')
      rw [same, ← taken]
      exact inside
  · intro taken
    obtain ⟨r,read,relation',there,answers⟩ := relation_of_taken reading taken
    cases here.symm.trans there
    exact ⟨r,read,(plain.listed r read relation member).mpr answers⟩

theorem mask_identifies_iff : (∃ mask,
      checkedRelationMask (relations.map collectQualifiedOutputColumns) p.1 = some mask ∧
        ∀ k, mask.getLsbD k = true ↔ some k ∈ p.2) ↔
    ∀ k relation, relations[k]? = some relation →
      (Lists relation p.1 ↔ some k ∈ p.2) ∧ (Lists relation p.1 → k < 32) := by
  have small : ((collectQualifiedColumnRefs p.1).all fun r =>
      (relations.map collectQualifiedOutputColumns).zipIdx.all fun ci =>
        !ci.1.contains r || decide (ci.2 < 32)) = true ↔
      ∀ k relation, relations[k]? = some relation → Lists relation p.1 → k < 32 := by
    simp only [all_eq_true, mem_zipIdx_iff_getElem?, getElem?_map,
      Option.map_eq_some_iff, Bool.or_eq_true, Bool.not_eq_true', contains_eq_mem,
      decide_eq_false_iff_not, decide_eq_true_eq]
    constructor
    · rintro all k relation found ⟨r,read,listed⟩
      exact (all r read (_, k) ⟨relation,found,rfl⟩).resolve_left (not_not_intro listed)
    · rintro all r read ⟨_,k⟩ ⟨relation,found,rfl⟩
      by_cases listed : r ∈ collectQualifiedOutputColumns relation
      · exact .inr (all k relation found ⟨r,read,listed⟩)
      · exact .inl listed
  have bits : ∀ k, (relationMask (relations.map collectQualifiedOutputColumns) p.1).getLsbD k = true ↔
      k < 32 ∧ ∃ relation, relations[k]? = some relation ∧ Lists relation p.1 := by
    intro k
    rw [relationMask_bit_iff]
    simp only [getElem?_map, Option.map_eq_some_iff, Lists]
    refine and_congr_right fun _ => ⟨?_,?_⟩
    · rintro ⟨_,⟨relation,here,rfl⟩,listed⟩
      exact ⟨relation,here,listed⟩
    · rintro ⟨relation,here,listed⟩
      exact ⟨_,⟨relation,here,rfl⟩,listed⟩
  rw [checkedRelationMask_eq]
  constructor
  · rintro ⟨mask,made,same⟩
    split at made
    case isFalse => cases made
    case isTrue inside =>
      cases made
      have below := small.mp inside
      intro k relation here
      refine ⟨?_,below k relation here⟩
      rw [← same, bits]
      constructor
      · intro listed
        exact ⟨below k relation here listed,relation,here,listed⟩
      · rintro ⟨-,relation',there,listed⟩
        cases here.symm.trans there
        exact listed
  · intro right
    rw [if_pos (small.mpr fun k relation here => (right k relation here).2)]
    refine ⟨_,rfl,fun k => ?_⟩
    rw [bits]
    constructor
    · rintro ⟨-,relation,here,listed⟩
      exact (right k relation here).1.mp listed
    · intro taken
      obtain ⟨-,-,relation,here,-⟩ := relation_of_taken reading taken
      have listed := (right k relation here).1.mpr taken
      exact ⟨(right k relation here).2 listed,relation,here,listed⟩

end

/-- In a build without overflow checks the shift distance is taken modulo the width. -/
def wrappedRelationMask (relationColumns : List (List QualifiedRef)) (e : TypedExpr) : RelationMask :=
  (collectQualifiedColumnRefs e).foldl (fun mask r =>
    relationColumns.zipIdx.foldl (fun mask (columns, i) =>
      if columns.contains r then mask ||| Mask.bit (i % 32) else mask) mask) 0#32

end

def seriesNamed (name : String) : LogicalPlan :=
  .generateSeries ⟨1, 2, 1, name, none⟩

def seriesIsOne (name : String) : TypedExpr :=
  ⟨.binaryOp (.column none name) .eq (.int 1), .boolean, true⟩

/-- Series `a`, 31 times `x`, and `y`, which is relation 32. -/
def wideJoin : LogicalPlan :=
  .join ((List.replicate 31 (seriesNamed "x")).foldl (fun l r => .join l r .cross none) (seriesNamed "a"))
    (seriesNamed "y") .inner (some (seriesIsOne "y"))

end NovaRocks
