import NovaRocks.Rbo.ColumnAgreement

/-!
When column pruning keeps its promise. A call keeps it when no operator on the
way cuts off a column that is still read: a filter that starts from no
restriction does exactly that to everything it does not read itself.
-/
namespace NovaRocks
open Relational List
open Bool (and_eq_true)

section
variable [CaseFolding]

section

/-- What the induction carries: besides the promise, the settled columns agree
also where they are not asked for, and a call that leaves all columns leaves
the rows alone. -/
structure Preserved (w : World) (needed : Option (List String)) (plan : LogicalPlan) : Prop where
  wellFormed : wellScoped w.interp (pruneInner needed plan) = true
  whole : needed = none → Exact w plan (pruneInner needed plan)
  restricted : ∀ names, needed = some names →
    Agrees w (fun r => settled w.interp names r plan = true) plan (pruneInner needed plan)
  complete : ∀ names, needed = some names → wholeKept names plan = true →
    Exact w plan (pruneInner needed plan)

variable {w : World} {names : List String}

theorem Preserved.of_exact (wellFormed : wellScoped w.interp (pruneInner needed plan) = true)
    (exact : Exact w plan (pruneInner needed plan)) : Preserved w needed plan where
  wellFormed := wellFormed
  whole _ := exact
  restricted _ _ := exact.agrees _
  complete _ _ _ := exact

open Preserved (of_exact)

theorem Preserved.agrees (preserved : Preserved w (some names) plan) :
    Agrees w (fun r => settled w.interp names r plan = true) plan (pruneInner (some names) plan) :=
  preserved.restricted names rfl

theorem Agrees.inScope (agree : Agrees w (fun r => settled w.interp names r plan = true) plan q)
    (kept : ReadsSettled w.interp names es plan)
    (found : es.all (inScope w.interp (scopeOf w.interp plan)) = true) :
    es.all (inScope w.interp (scopeOf w.interp q)) = true := by
  rw [all_eq_true] at found ⊢
  intro e member
  have before := found e member
  rw [NovaRocks.inScope, all_eq_true] at before ⊢
  intro r read
  rw [agree.resolves r (kept e member r read)]
  exact before r read

theorem preserved_scan (valid : wellScoped w.interp (.scan node) = true)
    (safe : PruneSafe w.interp needed (.scan node)) : Preserved w needed (.scan node) := by
  cases needed with
  | none => exact .of_exact valid (Exact.refl w _)
  | some names =>
    rw [PruneSafe] at safe
    refine ⟨wellScoped_prune (safe names rfl) valid,fun restricted => ?_,?_,?_⟩
    · cases restricted
    · intro names' same
      cases same
      exact agrees_prune (safe names rfl)
    · intro names' same all
      cases same
      exact exact_prune (beq_iff_eq.mp all)

theorem preserved_filter (valid : wellScoped w.interp (.filter input predicate) = true)
    (unrestricted : needed = none → wholeKept (collectColumnRefs predicate) input = true)
    (kept : ReadsSettled w.interp (mergeNeeded needed (collectColumnRefs predicate)) [predicate] input)
    (below : Preserved w (some (mergeNeeded needed (collectColumnRefs predicate))) input) :
    Preserved w needed (.filter input predicate) := by
  rw [wellScoped, and_eq_true] at valid
  refine ⟨?_,?_,?_,?_⟩
  · have found := below.agrees.inScope kept (by simpa using valid.2)
    rw [pruneInner, wellScoped, below.wellFormed, Bool.true_and]
    simpa using found
  · intro none'
    subst none'
    exact (below.complete _ rfl (unrestricted rfl)).filter predicate
  · intro names same
    subst same
    exact below.agrees.filter (kept predicate (by simp))
  · intro names same all
    subst same
    exact (below.complete _ rfl all).filter predicate

theorem preserved_project (valid : wellScoped w.interp (.project input items) = true)
    (kept : ReadsSettled w.interp (projectNeeded needed items) (items.map ProjectItem.expr) input)
    (below : Preserved w (some (projectNeeded needed items)) input) :
    Preserved w needed (.project input items) := by
  rw [wellScoped, and_eq_true] at valid
  apply of_exact
  · have found := below.agrees.inScope kept (by simpa [all_map] using valid.2)
    rw [pruneInner, wellScoped, below.wellFormed, Bool.true_and]
    simpa [all_map] using found
  · exact below.agrees.project kept

theorem preserved_aggregate (valid : wellScoped w.interp (.aggregate input groupBy aggregates columns) = true)
    (kept : ReadsSettled w.interp (aggregateNeeded groupBy aggregates)
      (groupBy ++ aggregates.flatMap AggregateCall.operands) input)
    (below : Preserved w (some (aggregateNeeded groupBy aggregates)) input) :
    Preserved w needed (.aggregate input groupBy aggregates columns) := by
  rw [wellScoped, Bool.and_assoc, and_eq_true] at valid
  apply of_exact
  · have found := below.agrees.inScope kept (by rw [all_append, all_flatMap]; exact valid.2)
    rw [all_append, all_flatMap] at found
    rw [pruneInner, wellScoped, below.wellFormed, Bool.true_and]
    exact found
  · exact below.agrees.aggregate columns kept

section
variable {condition : Option TypedExpr}

theorem inScope_join (lefts : Agrees w keepL left left') (rights : Agrees w keepR right right')
    (kept : ∀ e ∈ condition.toList, ∀ r ∈ reads w.interp e, keepL r ∧ keepR r)
    (found : condition.toList.all (inScope w.interp
      (.merge (width w.interp left) (scopeOf w.interp left) (scopeOf w.interp right))) = true) :
    condition.toList.all (inScope w.interp
      (.merge (width w.interp left') (scopeOf w.interp left') (scopeOf w.interp right'))) = true := by
  rw [all_eq_true] at found ⊢
  intro e member
  have before := found e member
  rw [inScope, all_eq_true] at before ⊢
  intro r read
  have taken := TakenKept.of_both (scopeOf w.interp left) (scopeOf w.interp right) (kept e member r read)
  rw [resolves_merge_agrees lefts.resolves rights.resolves _ _ taken]
  exact before r read

variable (valid : wellScoped w.interp (.join left right kind condition) = true)

include valid in
theorem preserved_join_whole (lefts : Preserved w none left) (rights : Preserved w none right) :
    Preserved w none (.join left right kind condition) := by
  have exactLeft := lefts.whole rfl
  have exactRight := rights.whole rfl
  apply of_exact
  · rw [wellScoped, and_eq_true] at valid
    rw [pruneInner, wellScoped, alsoNeeded, Option.map_none, lefts.wellFormed, rights.wellFormed,
      exactLeft.scope, exactRight.scope, width, exactLeft.names]
    exact valid.2
  · exact exactLeft.join exactRight kind condition

include valid in
theorem preserved_join
    (safe : ReadsSettled w.interp (names ++ columnRefsOf condition.toList) condition.toList left ∧
      ReadsSettled w.interp (names ++ columnRefsOf condition.toList) condition.toList right)
    (lefts : Preserved w (some (names ++ columnRefsOf condition.toList)) left)
    (rights : Preserved w (some (names ++ columnRefsOf condition.toList)) right) :
    Preserved w (some names) (.join left right kind condition) := by
  have kept := fun e member r read => And.intro (safe.1 e member r read) (safe.2 e member r read)
  refine ⟨?_,fun restricted => ?_,?_,?_⟩
  · rw [wellScoped, and_eq_true] at valid
    have found := inScope_join lefts.agrees rights.agrees kept valid.2
    rw [pruneInner, wellScoped, and_eq_true]
    have both := And.intro lefts.wellFormed rights.wellFormed
    rw [← and_eq_true] at both
    exact ⟨both,found⟩
  · cases restricted
  · intro names' same
    cases same
    by_cases both : kind.keepsBoth = true
    · exact (Agrees.join_both lefts.agrees rights.agrees kept both).mono
        fun r => (settled_join_both condition both).mp
    · cases kind with
      | leftSemi => exact Agrees.join_left lefts.agrees rights.agrees kept (.inl rfl)
      | leftAnti => exact Agrees.join_left lefts.agrees rights.agrees kept (.inr rfl)
      | rightSemi => exact Agrees.join_right lefts.agrees rights.agrees kept (.inl rfl)
      | rightAnti => exact Agrees.join_right lefts.agrees rights.agrees kept (.inr rfl)
      | _ => exact (both rfl).elim
  · intro names' same all
    cases same
    by_cases both : kind.keepsBoth = true
    · obtain ⟨allLeft,allRight⟩ := (wholeKept_join_both condition both).mp all
      exact (lefts.complete _ rfl allLeft).join (rights.complete _ rfl allRight) kind condition
    · cases kind with
      | leftSemi => exact (lefts.complete _ rfl all).join_left rights.agrees safe.2 (.inl rfl)
      | leftAnti => exact (lefts.complete _ rfl all).join_left rights.agrees safe.2 (.inr rfl)
      | rightSemi => exact Exact.join_right lefts.agrees (rights.complete _ rfl all) safe.1 (.inl rfl)
      | rightAnti => exact Exact.join_right lefts.agrees (rights.complete _ rfl all) safe.1 (.inr rfl)
      | _ => exact (both rfl).elim

end

theorem preserved_sort (valid : wellScoped w.interp (.sort input items) = true)
    (safe : ∀ names, needed = some names →
      ReadsSettled w.interp (names ++ columnRefsOf (items.map SortItem.expr)) (items.map SortItem.expr) input)
    (below : Preserved w (alsoNeeded needed (items.map SortItem.expr)) input) :
    Preserved w needed (.sort input items) := by
  rw [wellScoped, and_eq_true] at valid
  cases needed with
  | none =>
    have exact := below.whole rfl
    apply of_exact
    · rw [pruneInner, wellScoped, below.wellFormed, exact.scope]
      exact valid.2
    · exact exact.sort items
  | some names =>
    have kept := safe names rfl
    have agree := below.restricted _ rfl
    refine ⟨?_,fun restricted => ?_,?_,?_⟩
    · have found := agree.inScope kept (by simpa [all_map] using valid.2)
      rw [pruneInner, wellScoped, below.wellFormed, Bool.true_and]
      simpa [all_map] using found
    · cases restricted
    · intro names' same
      cases same
      exact agree.sort kept
    · intro names' same all
      cases same
      exact (below.complete _ rfl all).sort items

theorem preserved_limit {count offset : Option Nat}
    (below : Preserved w needed input) : Preserved w needed (.limit input count offset) where
  wellFormed := below.wellFormed
  whole unrestricted := (below.whole unrestricted).limit count offset
  restricted names same := (below.restricted names same).limit count offset
  complete names same all := (below.complete names same all).limit count offset

theorem preserved_cteAnchor (produced : Preserved w none produce) (consumed : Preserved w needed consumer) :
    Preserved w needed (.cteAnchor cteId produce consumer) where
  wellFormed := by
    rw [pruneInner, wellScoped, produced.wellFormed, consumed.wellFormed]
    rfl
  whole unrestricted := (produced.whole rfl).cteAnchor (consumed.whole unrestricted) cteId
  restricted names same :=
    Agrees.cteAnchor (produced.whole rfl) (consumed.restricted names same) cteId
  complete names same all := (produced.whole rfl).cteAnchor (consumed.complete names same all) cteId

def InputsPreserved (w : World) (inputs : List LogicalPlan) : Prop :=
  ∀ p ∈ inputs, Preserved w none p

theorem exact_inputs (preserved : InputsPreserved w inputs) :
    Forall₂ (Exact w) inputs (pruneInputs inputs) := by
  induction inputs with
  | nil => exact .nil
  | cons p rest ih =>
    obtain ⟨first,others⟩ := forall_mem_cons.mp preserved
    exact .cons (first.whole rfl) (ih others)

theorem wellScoped_inputs (valid : wellScopedInputs w.interp arity inputs = true)
    (preserved : InputsPreserved w inputs) : wellScopedInputs w.interp arity (pruneInputs inputs) = true := by
  induction inputs with
  | nil => rfl
  | cons p rest ih =>
    obtain ⟨head,others⟩ := forall_mem_cons.mp preserved
    rw [wellScopedInputs, and_eq_true, and_eq_true] at valid
    rw [pruneInputs, wellScopedInputs, head.wellFormed, ih valid.2 others, width, (head.whole rfl).names]
    simpa [width] using valid.1.2

section
variable (below : InputsPreserved w inputs)
include below

theorem preserved_union {all : Bool} (valid : wellScoped w.interp (.union inputs all) = true) :
    Preserved w needed (.union inputs all) := by
  have exact := Exact.union (exact_inputs below) all
  apply of_exact _ exact
  rw [pruneInner, wellScoped, exact.names]
  exact wellScoped_inputs valid below

theorem preserved_intersect (valid : wellScoped w.interp (.intersect inputs) = true) :
    Preserved w needed (.intersect inputs) := by
  have exact := Exact.intersect (exact_inputs below)
  apply of_exact _ exact
  rw [pruneInner, wellScoped, exact.names]
  exact wellScoped_inputs valid below

theorem preserved_except (valid : wellScoped w.interp (.except inputs) = true) :
    Preserved w needed (.except inputs) := by
  have exact := Exact.except (exact_inputs below)
  apply of_exact _ exact
  rw [pruneInner, wellScoped, exact.names]
  exact wellScoped_inputs valid below

end

theorem preserved_window (valid : wellScoped w.interp (.window input windowExprs columns) = true)
    (below : Preserved w none input) : Preserved w needed (.window input windowExprs columns) := by
  have exact := below.whole rfl
  rw [wellScoped, and_eq_true] at valid
  apply of_exact
  · rw [pruneInner, wellScoped, below.wellFormed, exact.scope]
    exact valid.2
  · exact exact.window windowExprs columns

mutual
theorem prune_preserves : ∀ (plan : LogicalPlan) (needed : Option (List String)),
    wellScoped w.interp plan = true → PruneSafe w.interp needed plan → Preserved w needed plan
  | .scan node, needed, valid, safe => preserved_scan valid safe
  | .filter input predicate, needed, valid, safe => by
    rw [PruneSafe] at safe
    obtain ⟨unrestricted,kept,rest⟩ := safe
    exact preserved_filter valid unrestricted kept (prune_preserves input _ (and_eq_true _ _ ▸ valid).1 rest)
  | .project input items, needed, valid, safe => by
    rw [PruneSafe] at safe
    exact preserved_project valid safe.1 (prune_preserves input _ (and_eq_true _ _ ▸ valid).1 safe.2)
  | .aggregate input groupBy aggregates columns, needed, valid, safe => by
    rw [PruneSafe] at safe
    have inputs := valid
    rw [wellScoped, and_eq_true, and_eq_true] at inputs
    exact preserved_aggregate valid safe.1 (prune_preserves input _ inputs.1.1 safe.2)
  | .join left right kind condition, needed, valid, safe => by
    rw [PruneSafe] at safe
    have inputs := valid
    rw [wellScoped, and_eq_true, and_eq_true] at inputs
    have lefts := prune_preserves left _ inputs.1.1 safe.2.1
    have rights := prune_preserves right _ inputs.1.2 safe.2.2
    cases needed with
    | none => exact preserved_join_whole valid lefts rights
    | some names => exact preserved_join valid (safe.1 names rfl) lefts rights
  | .sort input items, needed, valid, safe => by
    rw [PruneSafe] at safe
    exact preserved_sort valid safe.1 (prune_preserves input _ (and_eq_true _ _ ▸ valid).1 safe.2)
  | .limit input count offset, needed, valid, safe => preserved_limit (prune_preserves input needed valid safe)
  | .union inputs all, needed, valid, safe =>
    preserved_union (prune_preserves_inputs inputs _ valid safe) valid
  | .intersect inputs, needed, valid, safe =>
    preserved_intersect (prune_preserves_inputs inputs _ valid safe) valid
  | .except inputs, needed, valid, safe =>
    preserved_except (prune_preserves_inputs inputs _ valid safe) valid
  | .values exprRows columns, needed, valid, _ => .of_exact valid (Exact.refl w _)
  | .generateSeries node, needed, valid, _ => .of_exact valid (Exact.refl w _)
  | .window input windowExprs columns, needed, valid, safe =>
    preserved_window valid (prune_preserves input none (and_eq_true _ _ ▸ valid).1 safe)
  | .subqueryAlias input aliasName columns, needed, valid, safe => by
    have below := prune_preserves input none valid safe
    exact .of_exact below.wellFormed ((below.whole rfl).subqueryAlias aliasName columns)
  | .repeat input info, needed, valid, safe => by
    have below := prune_preserves input none valid safe
    exact .of_exact below.wellFormed ((below.whole rfl).repeat info)
  | .cteAnchor cteId produce consumer, needed, valid, safe => by
    rw [PruneSafe] at safe
    rw [wellScoped, and_eq_true] at valid
    exact preserved_cteAnchor (prune_preserves produce none valid.1 safe.1)
      (prune_preserves consumer needed valid.2 safe.2)
  | .cteProduce cteId input columns, needed, valid, safe => by
    have below := prune_preserves input none valid safe
    exact .of_exact below.wellFormed ((below.whole rfl).cteProduce cteId columns)
  | .cteConsume cteId aliasName columns, needed, valid, _ => .of_exact valid (Exact.refl w _)
theorem prune_preserves_inputs : ∀ (inputs : List LogicalPlan) (arity : Nat),
    wellScopedInputs w.interp arity inputs = true → InputsSafe w.interp inputs →
    InputsPreserved w inputs
  | [], _, _, _ => by simp [InputsPreserved]
  | p :: rest, arity, valid, safe => by
    rw [InputsSafe] at safe
    rw [wellScopedInputs, and_eq_true, and_eq_true] at valid
    exact forall_mem_cons.mpr
      ⟨prune_preserves p none valid.1.1 safe.1,prune_preserves_inputs rest arity valid.2 safe.2⟩
end

end

/-- The promise of a call. The fragment builder accepts the pruned plan, which returns the plan's
rows on the names asked for, and exactly the plan's rows if there is no restriction. -/
structure PruneContract (w : World) (needed : Option (List String)) (plan : LogicalPlan) : Prop where
  wellFormed : wellScoped w.interp (pruneInner needed plan) = true
  whole : needed = none → Exact w plan (pruneInner needed plan)
  offered : ∀ names, needed = some names → ∀ r, r.2 ∈ names → (scopeOf w.interp plan).resolves r = true →
    (scopeOf w.interp (pruneInner needed plan)).resolves r = true
  restricted : ∀ names, needed = some names → ∀ ctes o,
    Forall₂ (RowsAgree fun r => r.2 ∈ names ∧ (scopeOf w.interp plan).resolves r = true)
      (rows w ctes o plan) (rows w ctes o (pruneInner needed plan))

/-- The call keeps its promise when no operator cuts off a column that is still read or asked for.
Without a restriction it keeps it only if no filter on the way to the output cuts off any. -/
theorem prune_inner_safe (w : World) (needed : Option (List String)) (plan : LogicalPlan)
    (valid : wellScoped w.interp plan = true) :
    (PruneSafe w.interp needed plan → AskedSettled w.interp needed plan →
      PruneContract w needed plan) ∧
    (needed = none → freshScans plan = true → PruneContract w needed plan → rootKept plan = true) := by
  constructor
  · intro safe asked
    have preserved := prune_preserves plan needed valid safe
    refine ⟨preserved.wellFormed,preserved.whole,?_,?_⟩
    · intro names same r named found
      rw [(preserved.restricted names same).resolves r (asked names same r named found)]
      exact found
    · intro names same ctes o
      refine ((preserved.restricted names same).inStep ctes o).imp fun a b agree r kept => ?_
      exact agree r (asked names same r kept.1 kept.2)
  · intro none' fresh contract
    have names := (contract.whole none').names
    rw [none'] at names
    exact rootKept_of_names fresh names

end

def paidOrders : LogicalPlan :=
  .filter
    (.join (.scan (.whole "orders" none ["id", "amount", "note"]))
      (.scan (.whole "payments" none ["order_id", "day"])) .inner
      (some (.test (.column (some "orders") "id") .eq (.column (some "payments") "order_id"))))
    (.test (.column none "amount") .gt (.int 0))

def paidWorld : World := .ofTables
  [("orders", ["id", "amount", "note"], [[.int 1, .int 30, .text "gift"], [.int 2, .int 0, .null]]),
    ("payments", ["order_id", "day"], [[.int 1, .int 8], [.int 2, .int 9]])]

/-- Asked for the day, the scan of the orders drops the note; the paid order is still found. -/
theorem prune_inner_safe_paidOrders :
    PruneContract paidWorld (some ["day"]) paidOrders ∧
      (rows paidWorld (fun _ => []) (fun _ => .null) (pruneInner (some ["day"]) paidOrders)).map Row.cells =
        [[.int 1, .int 30, .int 1, .int 8]] := by
  have valid : wellScoped paidWorld.interp paidOrders = true := by decide
  refine ⟨(prune_inner_safe _ _ paidOrders valid).1 ?_ ?_,rfl⟩
  · simp only [PruneSafe, paidOrders, alsoNeeded, Option.map_some]
    refine ⟨?_,?_,?_,?_,?_⟩
    · intro none'
      cases none'
    · unfold ReadsSettled
      decide
    · rintro names ⟨⟩
      unfold ReadsSettled
      decide
    · rintro names ⟨⟩
      simp [ReadsSettled, ScanNode.whole]
    · rintro names ⟨⟩
      simp [ReadsSettled, ScanNode.whole]
  · rintro names ⟨⟩ r asked _
    exact settled_of_fresh asked (by decide)

/-- Orders without a payment, numbered by amount: the window restricts nothing,
so the filter below it starts from its own column only. -/
def unpaidOrders : LogicalPlan :=
  let byAmount : SortItem := ⟨.column none "amount", true, true⟩
  .project
    (.window
      (.sort
        (.filter
          (.join (.scan (.whole "orders" none ["id", "amount"]))
            (.scan (.whole "payments" none ["order_id", "day"])) .leftOuter
            (some (.test (.column (some "orders") "id") .eq (.column (some "payments") "order_id"))))
          ⟨.isNull (.column (some "payments") "day") false, .boolean, false⟩)
        [byAmount])
      [⟨"row_number", [], false, [], [byAmount], none, .int64, "n"⟩] [])
    [⟨.column none "amount", "amount"⟩, ⟨.column none "n", "n"⟩]

/-- The amount is gone below the sort that needs it. -/
theorem unpaidOrders_lose_amount :
    wellScoped intInterp unpaidOrders = true ∧
      wellScoped intInterp (pruneInner none unpaidOrders) = false := by
  constructor
  · decide
  · decide

end NovaRocks
