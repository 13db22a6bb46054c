import NovaRocks.Cascades.Memo
import NovaRocks.Sql.Origins

/-!
Turning `(A JOIN B) JOIN C` into `A JOIN (B JOIN C)` inside the memo. The inner
condition moves to the join of B and C as it is, so it must not read A. The
rule decides that by bare column names; whether a reference really belongs to A
is a matter of scopes.
-/
namespace NovaRocks
open Relational List

section
variable [CaseFolding]

structure Association where
  a : GroupId
  b : GroupId
  c : GroupId
  inner : Option TypedExpr
  outer : Option TypedExpr

def MExpr.isInnerJoin (e : MExpr) : Bool :=
  match e.op with
  | .logicalJoin op => op.joinType = .inner
  | _ => false

/-- An inner join over a group whose first inner join gives A and B. -/
def associationOf (memo : Memo) (expr : MExpr) : Option Association :=
  match expr.op, expr.children with
  | .logicalJoin ⟨.inner, outer⟩, [innerGroup, c] =>
    match (memo.groups[innerGroup]?).bind fun g => g.logicalExprs.find? MExpr.isInnerJoin with
    | some ⟨_, .logicalJoin inner, [a, b]⟩ => some ⟨a, b, c, inner.condition, outer⟩
    | _ => none
  | _, _ => none

/-- The gate: every bare name the inner condition uses is a column name of B or C. -/
def Association.reusable (memo : Memo) (parts : Association) : Bool :=
  match parts.inner with
  | none => true
  | some cond =>
    let condCols := collectColumnRefs cond
    let aCols := memo.getGroupColumnNames parts.a
    let bcCols := memo.getGroupColumnNames parts.b ++ memo.getGroupColumnNames parts.c
    let refsOnlyBc := condCols.all fun c => bcCols.contains c
    let refsAnyA := condCols.any fun c => aCols.contains c && !bcCols.contains c
    !(!refsOnlyBc || refsAnyA)

def joinAssociativity (expr : MExpr) (memo : Memo) : List NewExpr × Memo :=
  match associationOf memo expr with
  | none => ([], memo)
  | some parts =>
    if parts.reusable memo then
      let (newInnerGroup, memo') := memo.newGroup
        ⟨memo.nextExprId, .logicalJoin ⟨.inner, parts.inner⟩, [parts.b, parts.c]⟩
      ([⟨.logicalJoin ⟨.inner, parts.outer⟩, [parts.a, newInnerGroup]⟩], memo')
    else ([], memo)

namespace Association
variable (parts : Association) (contents : GroupId → LogicalPlan)

def original : LogicalPlan :=
  .join (.join (contents parts.a) (contents parts.b) .inner parts.inner) (contents parts.c)
    .inner parts.outer

def rewritten : LogicalPlan :=
  .join (contents parts.a) (.join (contents parts.b) (contents parts.c) .inner parts.inner)
    .inner parts.outer

/-- The new expression joins A with a new group that holds the join of B and C
and nothing else. -/
def Adds (memo : Memo) (alternative : NewExpr) : Prop :=
  ∃ group id, alternative = ⟨.logicalJoin ⟨.inner, parts.outer⟩, [parts.a, group]⟩ ∧
    (memo.groups[group]?).map (fun g => g.logicalExprs ++ g.physicalExprs) =
      some [⟨id, .logicalJoin ⟨.inner, parts.inner⟩, [parts.b, parts.c]⟩]

end Association

theorem joinAssociativity_accepts (accepted : joinAssociativity expr memo = ([alternative], memo')) :
    ∃ parts, associationOf memo expr = some parts ∧ parts.reusable memo = true ∧
      parts.Adds memo' alternative := by
  unfold joinAssociativity at accepted
  cases found : associationOf memo expr with
  | none =>
    rw [found] at accepted
    cases accepted
  | some parts =>
    rw [found] at accepted
    dsimp only at accepted
    by_cases gate : parts.reusable memo = true
    · rw [if_pos gate] at accepted
      cases accepted
      exact ⟨parts,rfl,gate,_,_,rfl,memo.newGroup_lookup _⟩
    · rw [if_neg gate] at accepted
      cases accepted

inductive Input where
  | a | b | c
  deriving DecidableEq

namespace Association
variable (parts : Association) (contents : GroupId → LogicalPlan) (i : Interp)

def origin : Input → Origin Input
  | .a => .ofInput .a (scopeOf i (contents parts.a))
  | .b => .ofInput .b (scopeOf i (contents parts.b))
  | .c => .ofInput .c (scopeOf i (contents parts.c))

def InnerAvoidsFirst : Prop :=
  ∀ e ∈ parts.inner.toList, ∀ d ∈ joinConjuncts e,
    some .a ∉ Origin.taken i (parts.origin contents i .a) (parts.origin contents i .b) d

/-- Both conditions take their columns from the same inputs before and after the move. -/
structure TakesSame : Prop where
  inner : ∀ e ∈ parts.inner.toList, ∀ d ∈ joinConjuncts e,
    Origin.taken i (parts.origin contents i .a) (parts.origin contents i .b) d =
      Origin.taken i (parts.origin contents i .b) (parts.origin contents i .c) d
  outer : ∀ e ∈ parts.outer.toList, ∀ d ∈ joinConjuncts e,
    Origin.taken i ((parts.origin contents i .a).merge (parts.origin contents i .b))
        (parts.origin contents i .c) d =
      Origin.taken i (parts.origin contents i .a)
        ((parts.origin contents i .b).merge (parts.origin contents i .c)) d

structure Sound (w : World) : Prop where
  /-- What is placed on the new inner join refers to no column of A. -/
  innerReads : parts.InnerAvoidsFirst contents w.interp
  wellFormed : wellScoped w.interp (parts.rewritten contents) = true
  same : ∀ ctes o, SameBag (rows w ctes o (parts.original contents))
    (rows w ctes o (parts.rewritten contents))

variable {parts contents i} {w : World}

theorem TakesSame.avoids (takes : parts.TakesSame contents i) : parts.InnerAvoidsFirst contents i := by
  intro e member d conjunct inA
  rw [takes.inner e member d conjunct] at inA
  obtain ⟨r,from'⟩ := Origin.mem_taken inA
  simp only [origin, Origin.ofInput] at from'
  rcases from' with from' | from' <;> split at from' <;> cases from'

theorem isSome_origin (parts : Association) (contents : GroupId → LogicalPlan) (input : Input)
    (r : QualifiedRef) : (parts.origin contents i input r).isSome = match input with
      | .a => (scopeOf i (contents parts.a)).resolves r
      | .b => (scopeOf i (contents parts.b)).resolves r
      | .c => (scopeOf i (contents parts.c)).resolves r := by
  cases input <;> simp only [origin, Origin.ofInput] <;> split <;> simp_all

theorem rewritten_wellFormed (valid : wellScoped i (parts.original contents) = true)
    (takes : parts.TakesSame contents i) : wellScoped i (parts.rewritten contents) = true := by
  simp only [original, wellScoped, Bool.and_eq_true, all_eq_true, inScope] at valid
  obtain ⟨⟨⟨⟨validA,validB⟩,inner⟩,validC⟩,outer⟩ := valid
  simp only [rewritten, wellScoped, Bool.and_eq_true, all_eq_true, inScope]
  refine ⟨⟨validA,⟨validB,validC⟩,?_⟩,?_⟩
  · intro e member r read
    rw [reads, refsWith_joinConjuncts, mem_flatMap] at read
    obtain ⟨d,conjunct,read⟩ := read
    have before := (Origin.taken_isSome (parts.origin contents i .a)
      (parts.origin contents i .b)).mpr fun r' read' => by
        have found := inner e member r' (by
          rw [reads, refsWith_joinConjuncts, mem_flatMap]
          exact ⟨d,conjunct,read'⟩)
        rw [Scope.resolves_merge] at found
        rw [isSome_origin, isSome_origin]
        exact found
    rw [takes.inner e member d conjunct] at before
    have after := (Origin.taken_isSome _ _).mp before r read
    rw [isSome_origin, isSome_origin] at after
    rw [Scope.resolves_merge]
    exact after
  · intro e member r read
    have three := outer e member r read
    simp only [scopeOf, Scope.resolves_merge] at three ⊢
    rw [← Bool.or_assoc]
    exact three

theorem conditionMatches_same (o : Outer)
    (same : ∀ e ∈ condition.toList, ∀ d ∈ joinConjuncts e,
      conjunctMatches i ls rs o d l.look r.look = conjunctMatches i ls' rs' o d l'.look r'.look) :
    conditionMatches i ls rs o condition l r = conditionMatches i ls' rs' o condition l' r' := by
  cases condition with
  | none => rfl
  | some e => exact all_congr_mem (same e (by simp))

theorem rewritten_rows (takes : parts.TakesSame contents w.interp) (ctes : Nat → List Row) (o : Outer) :
    rows w ctes o (parts.original contents) = rows w ctes o (parts.rewritten contents) := by
  apply matched_assoc
  · intro a b c
    simp only [mergeRow, append_assoc, scopeOf, mergeLook_assoc _ _ _ _ (width w.interp (contents parts.b))]
  · intro a b c
    let values : Input → QualifiedRef → Value
      | .a => a.look
      | .b => b.look
      | .c => c.look
    have showsA := Origin.shows_ofInput values .a (scopeOf w.interp (contents parts.a))
    have showsB := Origin.shows_ofInput values .b (scopeOf w.interp (contents parts.b))
    have showsC := Origin.shows_ofInput values .c (scopeOf w.interp (contents parts.c))
    refine congrArg₂ _ (conditionMatches_same o fun e member d conjunct => ?_)
      (conditionMatches_same o fun e member d conjunct => ?_)
    · exact showsA.same showsB showsB showsC o (takes.inner e member d conjunct)
    · exact (showsA.merge showsB _).same showsC showsA (showsB.merge showsC _) o
        (takes.outer e member d conjunct)

end Association

end

def shopTable : GroupId → ScanNode
  | 0 => .whole "customers" none ["id", "name"]
  | 1 => .whole "orders" none ["id", "customer"]
  | _ => .whole "items" none ["order_id", "price"]

def shopContents (g : GroupId) : LogicalPlan :=
  .scan (shopTable g)

def shopMemo (condition : TypedExpr) : Memo :=
  let scanned := fun g => (⟨g, [⟨g, .logicalScan (shopTable g), []⟩], [],
    some ⟨(shopTable g).columns⟩⟩ : Group)
  ⟨[scanned 0, scanned 1, scanned 2,
    ⟨3, [⟨3, .logicalJoin ⟨.inner, some condition⟩, [0, 1]⟩], [], none⟩]⟩

def itemsOfOrder : TypedExpr :=
  .test (.column (some "orders") "id") .eq (.column (some "items") "order_id")

def withItems : MExpr :=
  ⟨4, .logicalJoin ⟨.inner, some itemsOfOrder⟩, [3, 2]⟩

def shopParts (condition : TypedExpr) : Association :=
  ⟨0, 1, 2, some condition, some itemsOfOrder⟩

def knownCustomer : TypedExpr :=
  .test (.column (some "orders") "customer") .gt (.int 0)

def shopWorld : World := .ofTables
  [("customers", ["id", "name"], [[.int 7, .text "Ann"]]),
    ("orders", ["id", "customer"], [[.int 1, .int 7]]),
    ("items", ["order_id", "price"], [[.int 1, .int 5]])]

/-- Each order with its customer. Orders have an `id` too, so the gate lets
the condition pass by its bare names. -/
def ownOrders : TypedExpr :=
  .test (.column (some "customers") "id") .eq (.column (some "orders") "customer")

end NovaRocks
