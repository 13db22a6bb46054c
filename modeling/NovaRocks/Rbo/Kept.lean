import NovaRocks.Rbo.ColumnAgreement

/-!
What a rewrite keeps of a plan when it may change the order of the rows and of the
columns. The rewritten plan answers to the same names and returns the same rows as far as
a set of names tells. Operator by operator: an input of which enough is kept gives an
output of which as much is kept.
-/
namespace NovaRocks
open Relational List
variable [CaseFolding]

/-- The tables, what the common table expressions hold and the row of the enclosing query. -/
structure Database extends World where
  ctes : Nat → List Row
  outer : Outer

abbrev Database.rows (d : Database) : LogicalPlan → List Row :=
  NovaRocks.rows d.toWorld d.ctes d.outer

structure Kept (d : Database) (keep : QualifiedRef → Prop) (rewritten plan : LogicalPlan) : Prop where
  answers : (scopeOf d.interp rewritten).resolves = (scopeOf d.interp plan).resolves
  rows : Similar (Alike keep (scopeOf d.interp rewritten)) (d.rows rewritten) (d.rows plan)

/-- The names of interest below an operator that evaluates these expressions. -/
def Needed (i : Interp) (es : List TypedExpr) (keep : QualifiedRef → Prop) (r : QualifiedRef) : Prop :=
  keep r ∨ ∃ e ∈ es, r ∈ reads i e

variable {d : Database} {keep : QualifiedRef → Prop} {q p : LogicalPlan}

theorem Kept.refl (plan : LogicalPlan) : Kept d keep plan plan :=
  ⟨rfl,_,Perm.refl _,forall₂_same.mpr fun _ _ _ _ _ => rfl⟩

theorem Kept.scopes (kept : Kept d keep q p) : Answers keep (scopeOf d.interp q) (scopeOf d.interp p) :=
  fun r _ => (congrFun kept.answers r).symm

omit [CaseFolding] in
theorem narrowed (fewer : ∀ r, keep r → wide r) (similar : Similar (Alike wide s) xs ys) :
    Similar (Alike keep s) xs ys :=
  similar.imp fun _ _ _ alike r mine => alike r (fewer r mine)

theorem Kept.filter (kept : Kept d (Needed d.interp [e] keep) q p) :
    Kept d keep (.filter q e) (.filter p e) where
  answers := kept.answers
  rows := by
    refine narrowed (fun _ => .inl) (similar_filter kept.rows fun a b alike => ?_)
    exact accepts_agree kept.scopes d.outer alike fun r read => .inr ⟨e,by simp,read⟩

theorem Kept.sort (kept : Kept d keep q p) : Kept d keep (.sort q items) (.sort p items) where
  answers := kept.answers
  rows := by
    have sorted : ∀ env xs, (sortRows d.interp env items xs).Perm xs := fun _ => perm_insertionSort _
    obtain ⟨zs,perm,step⟩ := kept.rows.perm (sorted _ _).symm
    exact ⟨zs,(sorted _ _).trans perm,step⟩

theorem Kept.project (kept : Kept d (Needed d.interp (items.map ProjectItem.expr) fun _ => False) q p) :
    Kept d keep (.project q items) (.project p items) where
  answers := rfl
  rows := by
    refine similar_map kept.rows fun a b alike r _ _ => congrFun (congrArg Row.look ?_) r
    refine congrArg (cellRow _) (map_congr_left fun item member => ?_)
    exact eval_agree kept.scopes d.outer alike fun r read => .inr ⟨_,mem_map_of_mem member,read⟩

/-- The function has one value for a group, in whatever order its rows come. -/
def AggregateCall.OrderFree (i : Interp) (call : AggregateCall) : Prop :=
  ∀ xs ys, xs.Perm ys → i.aggregate call.name call.distinct xs = i.aggregate call.name call.distinct ys

theorem Kept.aggregate (free : ∀ call ∈ aggregates, call.OrderFree d.interp)
    (kept : Kept d (Needed d.interp (groupBy ++ aggregates.flatMap AggregateCall.operands) fun _ => False) q p) :
    Kept d keep (.aggregate q groupBy aggregates columns) (.aggregate p groupBy aggregates columns) where
  answers := rfl
  rows := by
    obtain ⟨zs,perm,step⟩ := kept.rows
    have cells := aggregateCells_agree kept.scopes d.outer step fun e member r read => .inr ⟨e,member,read⟩
    have shuffled : ∀ env, (aggregateCells d.interp env groupBy aggregates (d.rows q)).Perm
        (aggregateCells d.interp env groupBy aggregates zs) := by
      intro env
      unfold aggregateCells groupRows
      split
      · refine .of_eq (congrArg (· :: []) (map_congr_left fun call member => ?_))
        exact free call member _ _ (perm.map _)
      · rw [map_map, map_map]
        refine ((perm.map _).dedup.map _).trans (.of_eq (map_congr_left fun k _ => ?_))
        refine congrArg (k ++ ·) (map_congr_left fun call member => ?_)
        exact free call member _ _ ((perm.filter _).map _)
    simp only [Database.rows, NovaRocks.rows, ← cells]
    exact ⟨_,(shuffled _).map _,forall₂_same.mpr fun _ _ _ _ _ => rfl⟩

theorem Kept.subqueryAlias
    (kept : Kept d (fun r => ∃ r', keep r' ∧
      r = aliasRef (lower aliasName) (columnNames columns) (scopeOf d.interp p) r') q p) :
    Kept d keep (.subqueryAlias q aliasName columns) (.subqueryAlias p aliasName columns) := by
  have spelled : aliasRef (lower aliasName) (columnNames columns) (scopeOf d.interp q) =
      aliasRef (lower aliasName) (columnNames columns) (scopeOf d.interp p) := by
    funext r
    simp only [aliasRef, kept.answers]
  refine ⟨funext fun r => ?_,similar_map kept.rows fun a b alike r mine found => ?_⟩
  · simpa only [scopeOf, Scope.resolves, spelled] using congrFun kept.answers _
  · simp only [scopeOf, Scope.resolves, spelled] at found ⊢
    exact alike _ ⟨r,mine,rfl⟩ found

theorem Kept.join (kind : JoinKind) (left : Kept d (Needed d.interp condition.toList keep) l' l)
    (right : Kept d (Needed d.interp condition.toList keep) r' r) :
    Kept d keep (.join l' r' kind condition) (.join l r kind condition) := by
  have merged : (Scope.merge (width d.interp l') (scopeOf d.interp l') (scopeOf d.interp r')).resolves =
      (Scope.merge (width d.interp l) (scopeOf d.interp l) (scopeOf d.interp r)).resolves := by
    funext ref
    simp only [Scope.resolves_merge, left.answers, right.answers]
  have on := fun a' a b' b (first : Alike _ _ a' a) (second : Alike _ _ b' b) =>
    conditionMatches_agrees left.scopes right.scopes d.outer first second
      fun e member ref read => ⟨.inr ⟨e,member,read⟩,.inr ⟨e,member,read⟩⟩
  have on' := fun b' b a' a second first => on a' a b' b first second
  have pairs := fun a' a b' b (first : Alike _ _ a' a) (second : Alike _ _ b' b) =>
    Alike.merge left.scopes right.scopes first second (width d.interp l')
  have both := similar_matched on left.rows right.rows pairs
  have lonelyLeft := similar_map (similar_partner on left.rows right.rows not) fun a' a first =>
    pairs a' a (nullRow (width d.interp r')) (nullRow (width d.interp r)) first fun _ _ _ => rfl
  have lonelyRight := similar_map (similar_partner on' right.rows left.rows not) fun b' b =>
    pairs (nullRow (width d.interp l')) (nullRow (width d.interp l)) b' b fun _ _ _ => rfl
  have one : ∀ ref, keep ref → Needed d.interp condition.toList keep ref := fun _ => .inl
  have two := fun ref mine => And.intro (one ref mine) (one ref mine)
  refine ⟨?_,?_⟩ <;> cases kind
  case refine_1.leftSemi | refine_1.leftAnti => exact left.answers
  case refine_1.rightSemi | refine_1.rightAnti => exact right.answers
  case refine_2.leftSemi => exact narrowed one (similar_partner on left.rows right.rows id)
  case refine_2.leftAnti => exact narrowed one (similar_partner on left.rows right.rows not)
  case refine_2.rightSemi => exact narrowed one (similar_partner on' right.rows left.rows id)
  case refine_2.rightAnti => exact narrowed one (similar_partner on' right.rows left.rows not)
  case refine_2.leftOuter => exact narrowed two (similar_append both lonelyLeft)
  case refine_2.rightOuter => exact narrowed two (similar_append both lonelyRight)
  case refine_2.fullOuter => exact narrowed two (similar_append (similar_append both lonelyLeft) lonelyRight)
  case refine_2.inner | refine_2.cross => exact narrowed two both
  all_goals exact merged

end NovaRocks
