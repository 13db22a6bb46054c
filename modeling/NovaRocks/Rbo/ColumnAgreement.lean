import NovaRocks.Rbo.ColumnDemand
import NovaRocks.Relational.InStep

/-!
What column pruning preserves. A plan and its pruned form agree on a set of
references when they answer the same ones of it and corresponding rows have the
same values there. Operators that look only at such references make the same
choices over both inputs.
-/
namespace NovaRocks
open Relational List
open SortItem (expr)
variable [CaseFolding]

theorem aggregateCells_agree (answers : Answers keep s s') (o : Outer) (step : Forall₂ (Alike keep s) xs ys)
    (seen : ∀ e ∈ groupBy ++ aggregates.flatMap AggregateCall.operands, ∀ r ∈ reads i e, keep r) :
    aggregateCells i (fun row => envOf s o row.look) groupBy aggregates xs =
      aggregateCells i (fun row => envOf s' o row.look) groupBy aggregates ys := by
  rw [forall_mem_append] at seen
  have keys := fun a b alike => evalList_agree answers o (a := a) (b := b) alike seen.1
  -- in a group the calls see the same operand values
  have operands : ∀ call ∈ aggregates, ∀ es, es ⊆ call.operands → ∀ a b, Alike keep s a b →
      evalList i (envOf s o a.look) es = evalList i (envOf s' o b.look) es := by
    intro call mine es sub a b alike
    exact evalList_agree answers o alike fun e member => seen.2 e (mem_flatMap.mpr ⟨call,mine,sub member⟩)
  have pairs := fun call mine a b alike => Prod.mk_inj.mpr
    ⟨operands call mine call.args (subset_append_left _ _) a b alike,
      operands call mine (call.orderBy.map expr) (subset_append_right _ _) a b alike⟩
  unfold aggregateCells
  dsimp only
  split
  · refine congrArg (· :: []) (map_congr_left fun call member => ?_)
    exact congrArg _ (inStep_map_eq (pairs call member) step)
  · unfold groupRows
    rw [inStep_map_eq keys step, map_map, map_map]
    refine map_congr_left fun k _ => congrArg (k ++ ·) (map_congr_left fun call member => ?_)
    refine congrArg _ (inStep_map_eq (pairs call member) (inStep_filter ?_ step))
    intro a b same
    simp only [keys a b same]

section
variable (w : World)

structure Exact (p q : LogicalPlan) : Prop where
  scope : scopeOf w.interp q = scopeOf w.interp p
  names : orderedNames w.interp q = orderedNames w.interp p
  same : ∀ ctes o, rows w ctes o q = rows w ctes o p

structure Agrees (keep : QualifiedRef → Prop) (p q : LogicalPlan) : Prop where
  resolves : Answers keep (scopeOf w.interp p) (scopeOf w.interp q)
  inStep : ∀ ctes o, Forall₂ (RowsAgree keep) (rows w ctes o p) (rows w ctes o q)

end

section
theorem Exact.agrees (exact : Exact w p q) (keep : QualifiedRef → Prop) : Agrees w keep p q where
  resolves r _ := by rw [exact.scope]
  inStep ctes o := by
    rw [exact.same]
    exact forall₂_same.mpr fun _ _ _ _ => rfl

variable (agree : Agrees w keep p q)

include agree in
theorem Agrees.mono (fewer : ∀ r, keep' r → keep r) : Agrees w keep' p q where
  resolves r kept := agree.resolves r (fewer r kept)
  inStep ctes o := (agree.inStep ctes o).imp fun _ _ same r kept => same r (fewer r kept)

include agree in
theorem Agrees.filter (seen : ∀ r ∈ reads w.interp e, keep r) : Agrees w keep (.filter p e) (.filter q e) :=
  { agree with
    inStep := fun ctes o => by
      apply inStep_filter _ (agree.inStep ctes o)
      intro a b same
      exact accepts_agree agree.resolves o (same.alike _) seen }

include agree in
theorem Agrees.sort (seen : ∀ e ∈ items.map expr, ∀ r ∈ reads w.interp e, keep r) :
    Agrees w keep (.sort p items) (.sort q items) :=
  { agree with
    inStep := fun ctes o => by
      apply inStep_insertionSort _ (agree.inStep ctes o)
      intro a b c d first second
      dsimp only
      rw [evalList_agree agree.resolves o (first.alike _) seen,
        evalList_agree agree.resolves o (second.alike _) seen] }

include agree in
theorem Agrees.limit (count offset : Option Nat) :
    Agrees w keep (.limit p count offset) (.limit q count offset) :=
  { agree with
    inStep := fun ctes o => by
      have rest := forall₂_drop (offset.getD 0) (agree.inStep ctes o)
      cases count with
      | none => exact rest
      | some n => exact forall₂_take n rest }

include agree in
theorem Agrees.project (seen : ∀ e ∈ items.map ProjectItem.expr, ∀ r ∈ reads w.interp e, keep r) :
    Exact w (.project p items) (.project q items) where
  scope := rfl
  names := rfl
  same ctes o := by
    symm
    apply inStep_map_eq _ (agree.inStep ctes o)
    intro a b same
    refine congrArg (cellRow _) (map_congr_left fun item member => ?_)
    exact eval_agree agree.resolves o (same.alike _) (seen item.expr (mem_map_of_mem member))

include agree in
theorem Agrees.aggregate (columns : List OutputColumn)
    (seen : ∀ e ∈ groupBy ++ aggregates.flatMap AggregateCall.operands, ∀ r ∈ reads w.interp e, keep r) :
    Exact w (.aggregate p groupBy aggregates columns) (.aggregate q groupBy aggregates columns) where
  scope := rfl
  names := rfl
  same ctes o := by
    have alike := (agree.inStep ctes o).imp fun _ _ same => same.alike (scopeOf w.interp p)
    exact congrArg (map _) (aggregateCells_agree agree.resolves o alike seen).symm

end

section
variable (lefts : Agrees w keepL left left') (rights : Agrees w keepR right right')
include lefts rights

section
variable {condition : Option TypedExpr}
  (kept : ∀ e ∈ condition.toList, ∀ r ∈ reads w.interp e, keepL r ∧ keepR r)
include kept

theorem join_both_inStep (both : kind.keepsBoth = true) (ctes : Nat → List Row) (o : Outer) :
    Forall₂ (RowsAgree (TakenKept (scopeOf w.interp left) (scopeOf w.interp right) keepL keepR))
      (rows w ctes o (.join left right kind condition))
      (rows w ctes o (.join left' right' kind condition)) := by
  have same : ∀ l l' m m', RowsAgree keepL l l' → RowsAgree keepR m m' →
      conditionMatches w.interp (scopeOf w.interp left) (scopeOf w.interp right) o condition l m =
        conditionMatches w.interp (scopeOf w.interp left') (scopeOf w.interp right') o condition
          l' m' :=
    fun l l' m m' first second => conditionMatches_agrees lefts.resolves rights.resolves o
      (first.alike _) (second.alike _) kept
  have pairs : ∀ l l' m m', RowsAgree keepL l l' → RowsAgree keepR m m' →
      RowsAgree (TakenKept (scopeOf w.interp left) (scopeOf w.interp right) keepL keepR)
        (mergeRow (scopeOf w.interp left) (scopeOf w.interp right) l m)
        (mergeRow (scopeOf w.interp left') (scopeOf w.interp right') l' m') :=
    fun l l' m m' first second r taken => mergeLook_agrees lefts.resolves rights.resolves first second taken
  have lefts' := lefts.inStep ctes o
  have rights' := rights.inStep ctes o
  have pairsUp := inStep_matched same pairs lefts' rights'
  have lonelyLeft := rel_map
    (fun l l' first => pairs l l' (nullRow (width w.interp right)) (nullRow (width w.interp right'))
      first fun _ _ => rfl) (inStep_lonely same lefts' rights')
  have lonelyRight := rel_map
    (fun m m' second => pairs (nullRow (width w.interp left)) (nullRow (width w.interp left')) m m'
      (fun _ _ => rfl) second)
    (inStep_lonely (fun m m' l l' second first => same l l' m m' first second) rights' lefts')
  cases kind with
  | inner | cross => exact pairsUp
  | leftOuter => exact rel_append pairsUp lonelyLeft
  | rightOuter => exact rel_append pairsUp lonelyRight
  | fullOuter => exact rel_append (rel_append pairsUp lonelyLeft) lonelyRight
  | _ => cases both

theorem Agrees.join_both (both : kind.keepsBoth = true) :
    Agrees w (TakenKept (scopeOf w.interp left) (scopeOf w.interp right) keepL keepR)
      (.join left right kind condition) (.join left' right' kind condition) where
  resolves r taken := by
    rw [scopeOf_join_both _ _ _ _ both, scopeOf_join_both _ _ _ _ both]
    exact resolves_merge_agrees lefts.resolves rights.resolves _ _ taken
  inStep := join_both_inStep lefts rights kept both

theorem Agrees.join_left (semi : kind = .leftSemi ∨ kind = .leftAnti) :
    Agrees w keepL (.join left right kind condition) (.join left' right' kind condition) := by
  have same := fun o l l' m m' (first : RowsAgree keepL l l') (second : RowsAgree keepR m m') =>
    conditionMatches_agrees lefts.resolves rights.resolves o (first.alike _) (second.alike _) kept
  obtain rfl | rfl := semi
  · exact { lefts with
      inStep := fun ctes o => inStep_paired (same o) (lefts.inStep ctes o) (rights.inStep ctes o) }
  · exact { lefts with
      inStep := fun ctes o => inStep_lonely (same o) (lefts.inStep ctes o) (rights.inStep ctes o) }

theorem Agrees.join_right (semi : kind = .rightSemi ∨ kind = .rightAnti) :
    Agrees w keepR (.join left right kind condition) (.join left' right' kind condition) := by
  have same := fun o m m' l l' (second : RowsAgree keepR m m') (first : RowsAgree keepL l l') =>
    conditionMatches_agrees lefts.resolves rights.resolves o (first.alike _) (second.alike _) kept
  obtain rfl | rfl := semi
  · exact { rights with
      inStep := fun ctes o => inStep_paired (same o) (rights.inStep ctes o) (lefts.inStep ctes o) }
  · exact { rights with
      inStep := fun ctes o => inStep_lonely (same o) (rights.inStep ctes o) (lefts.inStep ctes o) }

end

end

theorem scopeOf_prune (i : Interp) (node : ScanNode) (needed : List String) :
    scopeOf i (.scan (node.prune needed)) =
      .ofBindings (namedBindings node.qualifiers (node.narrowed needed)) := by
  rw [scopeOf, prune_emitted]
  rfl

section
variable {w : World} (settledReads : ReadsSettled w.interp needed node.predicates (.scan node))
include settledReads

theorem agrees_prune : Agrees w (fun r => settled w.interp needed r (.scan node) = true)
    (.scan node) (.scan (node.prune needed)) where
  resolves r kept := by
    rw [scopeOf_prune]
    exact (beq_iff_eq.mp kept).symm
  inStep ctes o := by
    refine inStep_filter (fun a b same => all_congr_mem fun e member => ?_) ?_
    · refine accepts_congr o fun r read => ?_
      have kept := settledReads e member r read
      simp only [envOf, scopeOf_prune, ← beq_iff_eq.mp kept, same r kept]
    · refine forall₂_map_left_iff.mpr (forall₂_map_right_iff.mpr (forall₂_same.mpr ?_))
      intro record _ r kept
      have after := beq_iff_eq.mp kept
      rw [scopeOf_prune, prune_emitted]
      by_cases found : (scopeOf w.interp (.scan node)).resolves r = true
      · rw [found] at after
        rw [scopeOf] at found ⊢
        rw [look_named _ _ _ found, look_named _ _ _ after.symm]
      · rw [Bool.not_eq_true] at found
        rw [found] at after
        rw [look_unresolved _ found, look_unresolved _ after.symm]

theorem wellScoped_prune (valid : wellScoped w.interp (.scan node) = true) :
    wellScoped w.interp (.scan (node.prune needed)) = true := by
  rw [wellScoped, all_eq_true] at valid ⊢
  intro e member
  have before := valid e member
  rw [inScope, all_eq_true] at before ⊢
  intro r read
  rw [scopeOf_prune, ← beq_iff_eq.mp (settledReads e member r read)]
  exact before r read

end

theorem exact_prune (all : node.narrowed needed = node.emitted) :
    Exact w (.scan node) (.scan (node.prune needed)) := by
  have emitted := (prune_emitted node needed).trans all
  have scope : scopeOf w.interp (.scan (node.prune needed)) = scopeOf w.interp (.scan node) := by
    rw [scopeOf_prune, scopeOf, all]
  refine ⟨scope,emitted,fun ctes o => ?_⟩
  rw [rows, rows, scope, emitted]
  rfl

theorem Exact.refl (w : World) (p : LogicalPlan) : Exact w p p :=
  ⟨rfl,rfl,fun _ _ => rfl⟩

theorem Exact.filter (exact : Exact w p q) (e : TypedExpr) : Exact w (.filter p e) (.filter q e) :=
  ⟨exact.scope,exact.names,fun ctes o => by rw [rows, rows, exact.same, exact.scope]⟩

theorem Exact.sort (exact : Exact w p q) (items : List SortItem) : Exact w (.sort p items) (.sort q items) :=
  ⟨exact.scope,exact.names,fun ctes o => by rw [rows, rows, exact.same, exact.scope]⟩

theorem Exact.limit (exact : Exact w p q) (count offset : Option Nat) :
    Exact w (.limit p count offset) (.limit q count offset) :=
  ⟨exact.scope,exact.names,fun ctes o => by cases count <;> simp only [rows, exact.same]⟩

theorem Exact.join (lefts : Exact w left left') (rights : Exact w right right') (kind : JoinKind)
    (condition : Option TypedExpr) :
    Exact w (.join left right kind condition) (.join left' right' kind condition) where
  scope := by
    cases kind <;> simp only [scopeOf, width, lefts.scope, lefts.names, rights.scope]
  names := by
    cases kind <;> simp only [orderedNames, lefts.names, rights.names]
  same ctes o := by
    rw [rows, rows]
    simp only [width, lefts.same, rights.same, lefts.scope, rights.scope, lefts.names, rights.names]

theorem Exact.join_left (lefts : Exact w left left') (rights : Agrees w keepR right right')
    (kept : ∀ e ∈ condition.toList, ∀ r ∈ reads w.interp e, keepR r) (semi : kind = .leftSemi ∨ kind = .leftAnti) :
    Exact w (.join left right kind condition) (.join left' right' kind condition) := by
  have agree := lefts.agrees fun _ => True
  have partners := fun ctes o => inStep_hasPartner (rights.inStep ctes o) fun (l : Row) m m' second =>
    conditionMatches_agrees agree.resolves rights.resolves o (fun _ _ _ => (rfl : l.look _ = l.look _)) (second.alike _)
      fun e member r read => ⟨trivial,kept e member r read⟩
  obtain rfl | rfl := semi
  all_goals
    refine ⟨lefts.scope,lefts.names,fun ctes o => ?_⟩
    simp only [rows, joinRows, paired, lonely, lefts.same, partners]

theorem Exact.join_right (lefts : Agrees w keepL left left') (rights : Exact w right right')
    (kept : ∀ e ∈ condition.toList, ∀ r ∈ reads w.interp e, keepL r) (semi : kind = .rightSemi ∨ kind = .rightAnti) :
    Exact w (.join left right kind condition) (.join left' right' kind condition) := by
  have agree := rights.agrees fun _ => True
  have partners := fun ctes o => inStep_hasPartner (lefts.inStep ctes o) fun (m : Row) l l' first =>
    conditionMatches_agrees lefts.resolves agree.resolves o (first.alike _) (fun _ _ _ => (rfl : m.look _ = m.look _))
      fun e member r read => ⟨kept e member r read,trivial⟩
  obtain rfl | rfl := semi
  all_goals
    refine ⟨rights.scope,rights.names,fun ctes o => ?_⟩
    simp only [rows, joinRows, paired, lonely, rights.same]
    unfold flip
    rw [partners]

theorem Exact.window (exact : Exact w p q) (windowExprs : List WindowExpr) (columns : List OutputColumn) :
    Exact w (.window p windowExprs columns) (.window q windowExprs columns) := by
  have names : orderedNames w.interp (.window q windowExprs columns) =
      orderedNames w.interp (.window p windowExprs columns) := by
    rw [orderedNames, orderedNames, exact.names]
  constructor <;> simp [rows, scopeOf, names, exact.scope, exact.same]

theorem Exact.subqueryAlias (exact : Exact w p q) (aliasName : String) (columns : List OutputColumn) :
    Exact w (.subqueryAlias p aliasName columns) (.subqueryAlias q aliasName columns) where
  scope := by rw [scopeOf, scopeOf, exact.scope]
  names := exact.names
  same ctes o := by rw [rows, rows, exact.same, exact.scope]

theorem Exact.repeat (exact : Exact w p q) (info : RepeatInfo) :
    Exact w (.repeat p info) (.repeat q info) where
  scope := by rw [scopeOf, scopeOf, exact.scope, width, width, exact.names]
  names := by rw [orderedNames, orderedNames, exact.names]
  same ctes o := by rw [rows, rows, exact.same, exact.scope, exact.names]

theorem Exact.cteProduce (exact : Exact w p q) (cteId : Nat) (columns : List OutputColumn) :
    Exact w (.cteProduce cteId p columns) (.cteProduce cteId q columns) :=
  ⟨exact.scope,exact.names,fun ctes o => by rw [rows, rows, exact.same]⟩

theorem Exact.cteAnchor (produced : Exact w p q) (consumed : Exact w left left') (cteId : Nat) :
    Exact w (.cteAnchor cteId p left) (.cteAnchor cteId q left') :=
  ⟨consumed.scope,consumed.names,fun ctes o => by
    simp only [rows, produced.same, consumed.same]⟩

theorem Agrees.cteAnchor (produced : Exact w p q) (consumed : Agrees w keep left left') (cteId : Nat) :
    Agrees w keep (.cteAnchor cteId p left) (.cteAnchor cteId q left') :=
  { consumed with
    inStep := fun ctes o => by
      simp only [rows, produced.same]
      exact consumed.inStep _ o }

section
variable (exact : Forall₂ (Exact w) ps qs)
include exact

theorem rowsOfInputs_exact (ctes : Nat → List Row) (o : Outer) :
    rowsOfInputs w ctes o qs = rowsOfInputs w ctes o ps := by
  induction exact with
  | nil => rfl
  | cons head _ ih => rw [rowsOfInputs, rowsOfInputs, head.same, ih]

theorem setOp_names_exact (all : Bool) :
    orderedNames w.interp (.union qs all) = orderedNames w.interp (.union ps all) ∧
      orderedNames w.interp (.intersect qs) = orderedNames w.interp (.intersect ps) ∧
      orderedNames w.interp (.except qs) = orderedNames w.interp (.except ps) := by
  cases exact with
  | nil => exact ⟨rfl,rfl,rfl⟩
  | cons head _ => exact ⟨head.names,head.names,head.names⟩

theorem Exact.union (all : Bool) : Exact w (.union ps all) (.union qs all) := by
  have names := (setOp_names_exact exact all).1
  constructor <;> simp [rows, scopeOf, names, rowsOfInputs_exact exact]

theorem Exact.intersect : Exact w (.intersect ps) (.intersect qs) := by
  have names := (setOp_names_exact exact true).2.1
  constructor <;> simp [rows, scopeOf, names, rowsOfInputs_exact exact]

theorem Exact.except : Exact w (.except ps) (.except qs) := by
  have names := (setOp_names_exact exact true).2.2
  constructor <;> simp [rows, scopeOf, names, rowsOfInputs_exact exact]

end

end NovaRocks
