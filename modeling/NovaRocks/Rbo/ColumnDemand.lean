import NovaRocks.Rbo.ColumnPruning
import NovaRocks.Sql.Agreement

/-!
Which columns survive below an operator. Column pruning changes nothing but the
lists of columns the scans emit, and asks for columns by bare name. Following a
reference from the operator that reads it to the scans that answer it, one sees
from the plan alone whether the name has been asked for on the way.
-/
namespace NovaRocks
open List

section
variable (qualifiers names : List String)

theorem mem_namedBindings :
    b ∈ namedBindings qualifiers names ↔
      names[b.2]? = some b.1.2 ∧ (b.1.1 = none ∨ ∃ q ∈ qualifiers, b.1.1 = some q) := by
  obtain ⟨⟨q,c⟩,slot⟩ := b
  simp only [namedBindings, mem_flatMap, mem_cons, mem_map, Prod.exists, mem_zipIdx_iff_getElem?]
  constructor
  · intro found
    obtain ⟨name,k,placed,bare | ⟨a,mine,named⟩⟩ := found
    · cases bare
      exact ⟨placed,.inl rfl⟩
    · cases named
      exact ⟨placed,.inr ⟨a,mine,rfl⟩⟩
  · intro found
    obtain ⟨placed,bare | ⟨a,mine,named⟩⟩ := found
    · refine ⟨c,slot,placed,.inl ?_⟩
      rw [show q = none from bare]
    · refine ⟨c,slot,placed,.inr ⟨a,mine,?_⟩⟩
      rw [show q = some a from named]

theorem ofBindings_some (found : Scope.ofBindings bindings r = some slot) : (r, slot) ∈ bindings := by
  obtain ⟨b,first,same⟩ := Option.map_eq_some_iff.mp found
  have holds := find?_some first
  have member := mem_reverse.mp (mem_of_find?_eq_some first)
  rw [decide_eq_true_eq] at holds
  rw [← holds, ← same]
  exact member

theorem resolves_ofBindings :
    (Scope.ofBindings bindings).resolves r = true ↔ ∃ slot, (r, slot) ∈ bindings := by
  constructor
  · intro found
    obtain ⟨slot,same⟩ := Option.isSome_iff_exists.mp found
    exact ⟨slot,ofBindings_some same⟩
  · intro found
    obtain ⟨slot,member⟩ := found
    unfold Scope.resolves Scope.ofBindings
    rw [Option.isSome_map, find?_isSome]
    exact ⟨(r, slot),mem_reverse.mpr member,by simp⟩

theorem resolves_named :
    (Scope.ofBindings (namedBindings qualifiers names)).resolves r = true ↔
      r.2 ∈ names ∧ (r.1 = none ∨ ∃ q ∈ qualifiers, r.1 = some q) := by
  rw [resolves_ofBindings]
  constructor
  · intro found
    obtain ⟨slot,member⟩ := found
    obtain ⟨placed,spelled⟩ := (mem_namedBindings qualifiers names).mp member
    exact ⟨mem_of_getElem? placed,spelled⟩
  · intro found
    obtain ⟨slot,placed⟩ := mem_iff_getElem?.mp found.1
    exact ⟨slot,(mem_namedBindings qualifiers names).mpr ⟨placed,found.2⟩⟩

theorem look_named (f : String → Value)
    (found : (Scope.ofBindings (namedBindings qualifiers names)).resolves r = true) :
    (cellRow (.ofBindings (namedBindings qualifiers names)) (names.map f)).look r = f r.2 := by
  obtain ⟨slot,same⟩ := Option.isSome_iff_exists.mp found
  obtain ⟨placed,_⟩ := (mem_namedBindings qualifiers names).mp (ofBindings_some same)
  simp [cellRow, same, placed]

theorem look_unresolved (cells : List Value) (missing : s.resolves r = false) :
    (cellRow s cells).look r = .null := by
  rw [Scope.resolves, Option.isSome_eq_false_iff, Option.isNone_iff_eq_none] at missing
  simp [cellRow, missing]

end

theorem append_eq_of_sublist {α : Type} {a a' b b' : List α} (first : a'.Sublist a)
    (second : b'.Sublist b) (same : a' ++ b' = a ++ b) : a' = a ∧ b' = b := by
  have lengths := congrArg length same
  rw [length_append, length_append] at lengths
  have short := first.length_le
  have short' := second.length_le
  constructor
  · exact first.eq_of_length (by omega)
  · exact second.eq_of_length (by omega)

theorem keepsBoth_of_ne {kind : JoinKind} (notLeftSemi : kind = .leftSemi → False)
    (notLeftAnti : kind = .leftAnti → False)
    (notRightSemi : kind = .rightSemi → False) (notRightAnti : kind = .rightAnti → False) :
    kind.keepsBoth = true := by
  cases kind <;> first | rfl | contradiction

variable [CaseFolding]

/-! What one operator's set leaves of the columns below it. -/

section
variable (node : ScanNode) (needed : List String)

/-- Names the operators above the scan and its own predicates ask for. -/
def ScanNode.asked (c : String) : Bool :=
  (needed ++ columnRefsOf node.predicates).contains c

/-- The scan still emits the column; the first one stays if none is asked for. -/
def ScanNode.keeps (c : String) : Bool :=
  let names := columnNames node.columns
  if names.any (node.asked needed) then names.contains c && node.asked needed c
  else names.head? = some c

def ScanNode.narrowed : List String :=
  (columnNames node.table.columns).filter
      (fun c => node.keeps needed c || (node.table.equalityDeleteColumns.map lower).contains c) ++
    columnNames node.table.icebergRowLineageMetadataColumns

theorem mem_prunedColumns (c : String) :
    c ∈ (node.prunedColumns needed).map lower ↔ node.keeps needed c = true := by
  have kept : ∀ column ∈ node.columns, (column ∈ node.columns.filter fun c =>
      (needed ++ columnRefsOf node.predicates).contains (lower c.name)) ↔
        node.asked needed (lower column.name) = true := by
    intro column mine
    rw [mem_filter]
    exact and_iff_right mine
  unfold ScanNode.prunedColumns ScanNode.keeps
  dsimp only
  split
  · rename_i none'
    rw [if_neg]
    · cases node.columns <;> simp [columnNames, eq_comm]
    · intro any
      obtain ⟨d,member,wanted⟩ := any_eq_true.mp any
      obtain ⟨column,mine,rfl⟩ := mem_map.mp member
      have found := (kept column mine).mpr wanted
      rw [none'] at found
      cases found
  · rename_i nonempty
    obtain ⟨column,member⟩ := exists_mem_of_ne_nil _ nonempty
    have mine := (mem_filter.mp member).1
    rw [if_pos]
    · rw [Bool.and_eq_true, contains_iff_mem, map_map, columnNames]
      constructor
      · intro found
        obtain ⟨d,member,rfl⟩ := mem_map.mp found
        exact ⟨mem_map_of_mem (mem_filter.mp member).1,(mem_filter.mp member).2⟩
      · intro found
        obtain ⟨d,mine,rfl⟩ := mem_map.mp found.1
        exact mem_map_of_mem (mem_filter.mpr ⟨mine,found.2⟩)
    · exact any_eq_true.mpr ⟨_,mem_map_of_mem mine,(kept column mine).mp member⟩

theorem prune_emitted : (node.prune needed).emitted = node.narrowed needed := by
  refine congrArg (· ++ _) (filter_congr fun c _ => ?_)
  rw [Bool.eq_iff_iff, contains_iff_mem, Bool.or_eq_true, contains_iff_mem, map_append, mem_append]
  exact or_congr_left (mem_prunedColumns node needed c)

end

section
variable (i : Interp)

/-- When the plan is handed the set, it answers the reference as before: if at all, with the same
value. Only scans drop columns, so the reference is followed down to them through the operators
that hand a set on, in a join to the input it is taken from. -/
def settled (needed : List String) (r : QualifiedRef) : LogicalPlan → Bool
  | .scan node => (scopeOf i (.scan node)).resolves r ==
      (Scope.ofBindings (namedBindings node.qualifiers (node.narrowed needed))).resolves r
  | .filter input predicate => settled (needed ++ collectColumnRefs predicate) r input
  | .join left right kind condition =>
    let below := needed ++ columnRefsOf condition.toList
    match kind, r.1 with
    | .leftSemi, _ | .leftAnti, _ => settled below r left
    | .rightSemi, _ | .rightAnti, _ => settled below r right
    | _, none => settled below r left && ((scopeOf i left).resolves r || settled below r right)
    | _, some _ => settled below r right && ((scopeOf i right).resolves r || settled below r left)
  | .sort input items => settled (needed ++ columnRefsOf (items.map SortItem.expr)) r input
  | .limit input _ _ => settled needed r input
  | .cteAnchor _ _ consumer => settled needed r consumer
  | _ => true

/-- No scan that the set reaches emits other columns than before. -/
def wholeKept (needed : List String) : LogicalPlan → Bool
  | .scan node => node.narrowed needed == node.emitted
  | .filter input predicate => wholeKept (needed ++ collectColumnRefs predicate) input
  | .join left right kind condition =>
    let below := needed ++ columnRefsOf condition.toList
    match kind with
    | .leftSemi | .leftAnti => wholeKept below left
    | .rightSemi | .rightAnti => wholeKept below right
    | _ => wholeKept below left && wholeKept below right
  | .sort input items => wholeKept (needed ++ columnRefsOf (items.map SortItem.expr)) input
  | .limit input _ _ => wholeKept needed input
  | .cteAnchor _ _ consumer => wholeKept needed consumer
  | _ => true

def ReadsSettled (needed : List String) (es : List TypedExpr) (input : LogicalPlan) : Prop :=
  ∀ e ∈ es, ∀ r ∈ reads i e, settled i needed r input = true

mutual
/-- No operator cuts off a column that is still read. An operator that passes its set on unchanged
or restricts nothing never does. -/
def PruneSafe (needed : Option (List String)) : LogicalPlan → Prop
  | .scan node => ∀ names, needed = some names → ReadsSettled i names node.predicates (.scan node)
  | .filter input predicate =>
    -- without a set from above the filter still restricts its input
    (needed = none → wholeKept (collectColumnRefs predicate) input = true) ∧
    ReadsSettled i (mergeNeeded needed (collectColumnRefs predicate)) [predicate] input ∧
    PruneSafe (some (mergeNeeded needed (collectColumnRefs predicate))) input
  | .project input items =>
    ReadsSettled i (projectNeeded needed items) (items.map ProjectItem.expr) input ∧
    PruneSafe (some (projectNeeded needed items)) input
  | .aggregate input groupBy aggregates _ =>
    ReadsSettled i (aggregateNeeded groupBy aggregates)
      (groupBy ++ aggregates.flatMap AggregateCall.operands) input ∧
    PruneSafe (some (aggregateNeeded groupBy aggregates)) input
  | .join left right _ condition =>
    (∀ names, needed = some names →
      ReadsSettled i (names ++ columnRefsOf condition.toList) condition.toList left ∧
      ReadsSettled i (names ++ columnRefsOf condition.toList) condition.toList right) ∧
    PruneSafe (alsoNeeded needed condition.toList) left ∧
    PruneSafe (alsoNeeded needed condition.toList) right
  | .sort input items =>
    (∀ names, needed = some names →
      ReadsSettled i (names ++ columnRefsOf (items.map SortItem.expr)) (items.map SortItem.expr) input) ∧
    PruneSafe (alsoNeeded needed (items.map SortItem.expr)) input
  | .limit input _ _ => PruneSafe needed input
  | .union inputs _ | .intersect inputs | .except inputs => InputsSafe inputs
  | .window input _ _ | .subqueryAlias input _ _ | .repeat input _ | .cteProduce _ input _ =>
    PruneSafe none input
  | .cteAnchor _ produce consumer => PruneSafe none produce ∧ PruneSafe needed consumer
  | .values _ _ | .generateSeries _ | .cteConsume _ _ _ => True
def InputsSafe : List LogicalPlan → Prop
  | [] => True
  | p :: rest => PruneSafe none p ∧ InputsSafe rest
end

def AskedSettled (needed : Option (List String)) (plan : LogicalPlan) : Prop :=
  ∀ names, needed = some names → ∀ r, r.2 ∈ names → (scopeOf i plan).resolves r = true →
    settled i names r plan = true

end

mutual
/-- The scans are as the planner makes them, of all columns of the table. -/
def freshScans : LogicalPlan → Bool
  | .scan node => columnNames node.columns == columnNames node.table.columns && node.requiredColumns.isNone
  | .filter input _ | .project input _ | .aggregate input _ _ _ | .sort input _ | .limit input _ _
  | .window input _ _ | .subqueryAlias input _ _ | .repeat input _ | .cteProduce _ input _ =>
    freshScans input
  | .join left right _ _ | .cteAnchor _ left right => freshScans left && freshScans right
  | .union inputs _ | .intersect inputs | .except inputs => freshInputs inputs
  | .values _ _ | .generateSeries _ | .cteConsume _ _ _ => true
def freshInputs : List LogicalPlan → Bool
  | [] => true
  | p :: rest => freshScans p && freshInputs rest
end

/-- Where no set comes from above, no filter on the way from the scans to the output cuts a
column off. -/
def rootKept : LogicalPlan → Bool
  | .filter input predicate => wholeKept (collectColumnRefs predicate) input
  | .join left right kind _ =>
    match kind with
    | .leftSemi | .leftAnti => rootKept left
    | .rightSemi | .rightAnti => rootKept right
    | _ => rootKept left && rootKept right
  | .sort input _ | .limit input _ _ | .window input _ _ | .subqueryAlias input _ _ | .repeat input _
  | .cteProduce _ input _ | .cteAnchor _ _ input => rootKept input
  | _ => true

theorem fresh_emitted (fresh : freshScans (.scan node) = true) :
    node.emitted = columnNames node.columns ++ columnNames node.table.icebergRowLineageMetadataColumns := by
  rw [freshScans, Bool.and_eq_true, beq_iff_eq, Option.isNone_iff_eq_none] at fresh
  rw [ScanNode.emitted, fresh.2, fresh.1]

/-- A scan of all columns still emits what it is asked for. -/
theorem mem_narrowed_of_asked (fresh : freshScans (.scan node) = true) (asked : c ∈ needed) :
    c ∈ node.emitted ↔ c ∈ node.narrowed needed := by
  have columns := (Bool.and_eq_true_iff.mp fresh).1
  rw [beq_iff_eq] at columns
  rw [fresh_emitted fresh, ScanNode.narrowed, ← columns, mem_append, mem_append, mem_filter]
  refine or_congr_left (iff_self_and.mpr fun mine => ?_)
  have wanted : node.asked needed c = true := contains_iff_mem.mpr (mem_append_left _ asked)
  have some' : (columnNames node.columns).any (node.asked needed) = true :=
    any_eq_true.mpr ⟨c,mine,wanted⟩
  rw [ScanNode.keeps, if_pos some', wanted, contains_iff_mem.mpr mine]
  rfl

/-- What is asked for by name is settled where the scans are as the planner makes them. -/
theorem settled_of_fresh (asked : r.2 ∈ needed) (fresh : freshScans plan = true) :
    settled i needed r plan = true := by
  fun_induction settled i needed r plan with
  | case1 needed node =>
    rw [beq_iff_eq, scopeOf, Bool.eq_iff_iff, resolves_named, resolves_named,
      mem_narrowed_of_asked fresh asked]
  | case2 _ _ _ ih | case9 _ _ _ ih => exact ih (mem_append_left _ asked) fresh
  | case3 _ _ _ _ _ ih | case4 _ _ _ _ _ ih =>
    exact ih (mem_append_left _ asked) (Bool.and_eq_true_iff.mp fresh).1
  | case5 _ _ _ _ _ ih | case6 _ _ _ _ _ ih =>
    exact ih (mem_append_left _ asked) (Bool.and_eq_true_iff.mp fresh).2
  | case7 _ _ _ _ _ _ _ _ _ _ _ lefts rights =>
    obtain ⟨freshLeft,freshRight⟩ := Bool.and_eq_true_iff.mp fresh
    rw [lefts (mem_append_left _ asked) freshLeft, rights (mem_append_left _ asked) freshRight]
    simp
  | case8 _ _ _ _ _ _ _ _ _ _ _ _ rights lefts =>
    obtain ⟨freshLeft,freshRight⟩ := Bool.and_eq_true_iff.mp fresh
    rw [lefts (mem_append_left _ asked) freshLeft, rights (mem_append_left _ asked) freshRight]
    simp
  | case10 _ _ _ _ ih => exact ih asked fresh
  | case11 _ _ _ _ ih => exact ih asked (Bool.and_eq_true_iff.mp fresh).2
  | case12 => rfl

theorem settled_join_both (condition : Option TypedExpr) (both : kind.keepsBoth = true) :
    settled i needed r (.join left right kind condition) = true ↔
      TakenKept (scopeOf i left) (scopeOf i right)
        (fun r => settled i (needed ++ columnRefsOf condition.toList) r left = true)
        (fun r => settled i (needed ++ columnRefsOf condition.toList) r right = true) r := by
  obtain ⟨q,c⟩ := r
  cases q <;> cases kind <;> first | (simp [settled, TakenKept]; done) | cases both

theorem wholeKept_join_both (condition : Option TypedExpr) (both : kind.keepsBoth = true) :
    wholeKept needed (.join left right kind condition) = true ↔
      wholeKept (needed ++ columnRefsOf condition.toList) left = true ∧
      wholeKept (needed ++ columnRefsOf condition.toList) right = true := by
  cases kind <;> first | (simp [wholeKept]; done) | cases both

/-! What is lost can be read off the output columns. -/

theorem orderedNames_join_both (condition : Option TypedExpr) (both : kind.keepsBoth = true) :
    orderedNames i (.join left right kind condition) = orderedNames i left ++ orderedNames i right := by
  cases kind <;> first | rfl | cases both

theorem narrowed_sublist (fresh : freshScans (.scan node) = true) (needed : List String) :
    (node.narrowed needed).Sublist node.emitted := by
  have columns := (Bool.and_eq_true_iff.mp fresh).1
  rw [beq_iff_eq] at columns
  rw [fresh_emitted fresh, columns]
  exact Sublist.append_right filter_sublist _

mutual
theorem names_sublist (i : Interp) : ∀ (plan : LogicalPlan) (needed : Option (List String)),
    freshScans plan = true → (orderedNames i (pruneInner needed plan)).Sublist (orderedNames i plan)
  | .scan node, none, _ => .refl _
  | .scan node, some names, fresh => by
    rw [pruneInner, orderedNames, orderedNames, prune_emitted]
    exact narrowed_sublist fresh names
  | .filter input _, _, fresh | .sort input _, _, fresh | .limit input _ _, _, fresh
  | .subqueryAlias input _ _, _, fresh | .cteProduce _ input _, _, fresh => names_sublist i input _ fresh
  | .window input _ _, _, fresh | .repeat input _, _, fresh =>
    .append_right (names_sublist i input _ fresh) _
  | .join left right kind condition, needed, fresh => by
    obtain ⟨freshLeft,freshRight⟩ := Bool.and_eq_true_iff.mp fresh
    have lefts := names_sublist i left (alsoNeeded needed condition.toList) freshLeft
    have rights := names_sublist i right (alsoNeeded needed condition.toList) freshRight
    cases kind with
    | leftSemi | leftAnti => exact lefts
    | rightSemi | rightAnti => exact rights
    | _ => exact lefts.append rights
  | .cteAnchor _ _ consumer, _, fresh => names_sublist i consumer _ (Bool.and_eq_true_iff.mp fresh).2
  | .union inputs _, _, fresh | .intersect inputs, _, fresh | .except inputs, _, fresh => by
    cases inputs with
    | nil => exact .refl _
    | cons p rest => exact names_sublist_inputs i (p :: rest) fresh p mem_cons_self
  | .project _ _, _, _ | .aggregate _ _ _ _, _, _ | .values _ _, _, _ | .generateSeries _, _, _
  | .cteConsume _ _ _, _, _ => .refl _
theorem names_sublist_inputs (i : Interp) : ∀ inputs : List LogicalPlan, freshInputs inputs = true →
    ∀ p ∈ inputs, (orderedNames i (pruneInner none p)).Sublist (orderedNames i p)
  | [], _ => by simp
  | p :: rest, fresh => by
    obtain ⟨first,others⟩ := Bool.and_eq_true_iff.mp fresh
    exact forall_mem_cons.mpr ⟨names_sublist i p none first,names_sublist_inputs i rest others⟩
end

theorem names_join_both (both : kind.keepsBoth = true)
    (fresh : freshScans (.join left right kind condition) = true)
    (same : orderedNames i (pruneInner needed (.join left right kind condition)) =
      orderedNames i (.join left right kind condition)) :
    orderedNames i (pruneInner (alsoNeeded needed condition.toList) left) = orderedNames i left ∧
      orderedNames i (pruneInner (alsoNeeded needed condition.toList) right) = orderedNames i right := by
  obtain ⟨freshLeft,freshRight⟩ := Bool.and_eq_true_iff.mp fresh
  rw [pruneInner, orderedNames_join_both _ both, orderedNames_join_both _ both] at same
  exact append_eq_of_sublist (names_sublist i left _ freshLeft) (names_sublist i right _ freshRight) same

theorem wholeKept_of_names (fresh : freshScans plan = true)
    (same : orderedNames i (pruneInner (some needed) plan) = orderedNames i plan) :
    wholeKept needed plan = true := by
  fun_induction wholeKept needed plan with
  | case1 needed node =>
    rw [pruneInner, orderedNames, orderedNames, prune_emitted] at same
    exact beq_iff_eq.mpr same
  | case2 _ _ _ ih | case8 _ _ _ ih | case9 _ _ _ _ ih => exact ih fresh same
  | case3 _ _ _ _ _ ih | case4 _ _ _ _ _ ih => exact ih (Bool.and_eq_true_iff.mp fresh).1 same
  | case5 _ _ _ _ _ ih | case6 _ _ _ _ _ ih | case10 _ _ _ _ ih =>
    exact ih (Bool.and_eq_true_iff.mp fresh).2 same
  | case7 needed left right kind condition below n1 n2 n3 n4 ihl ihr =>
    obtain ⟨freshLeft,freshRight⟩ := Bool.and_eq_true_iff.mp fresh
    obtain ⟨lefts,rights⟩ := names_join_both (keepsBoth_of_ne n1 n2 n3 n4) fresh same
    rw [ihl freshLeft lefts, ihr freshRight rights]
    rfl
  | case11 => rfl

theorem rootKept_of_names (fresh : freshScans plan = true)
    (same : orderedNames i (pruneInner none plan) = orderedNames i plan) : rootKept plan = true := by
  fun_induction rootKept plan with
  | case1 input predicate => exact wholeKept_of_names fresh same
  | case2 _ _ _ ih | case3 _ _ _ ih => exact ih (Bool.and_eq_true_iff.mp fresh).1 same
  | case4 _ _ _ ih | case5 _ _ _ ih | case13 _ _ _ ih => exact ih (Bool.and_eq_true_iff.mp fresh).2 same
  | case6 left right kind condition n1 n2 n3 n4 ihl ihr =>
    obtain ⟨freshLeft,freshRight⟩ := Bool.and_eq_true_iff.mp fresh
    obtain ⟨lefts,rights⟩ := names_join_both (keepsBoth_of_ne n1 n2 n3 n4) fresh same
    rw [ihl freshLeft lefts, ihr freshRight rights]
    rfl
  | case7 _ _ ih | case8 _ _ _ ih | case10 _ _ _ ih | case12 _ _ _ ih => exact ih fresh same
  | case9 _ _ _ ih | case11 _ _ ih => exact ih fresh (append_cancel_right same)
  | case14 => rfl

end NovaRocks
