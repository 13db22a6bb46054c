import NovaRocks.Analyzer.Placeholder

/-!
`e IN (subquery)` and `e NOT IN (subquery)` as joins. In a conjunct the
subquery becomes a semi or an anti join on equality; for NOT IN the rows whose
output is NULL are filtered out of the subquery first. Below OR it becomes an
outer join against the distinct values.
-/
namespace NovaRocks
open Relational List

theorem inValues_eq_yes (v : Value) (vs : List Value) : inValues v vs = .yes ↔ v ≠ .null ∧ v ∈ vs := by
  induction vs with
  | nil => simp [inValues]
  | cons u vs ih =>
    rw [inValues, Kleene.or_eq_yes, ih, Value.equals_eq_yes, mem_cons, and_or_left]

theorem inValues_eq_no (v : Value) (vs : List Value) :
    inValues v vs = .no ↔ vs = [] ∨ v ≠ .null ∧ .null ∉ vs ∧ v ∉ vs := by
  induction vs with
  | nil => simp [inValues]
  | cons u vs ih =>
    have differs : v.equals u = .no ↔ v ≠ .null ∧ u ≠ .null ∧ v ≠ u := by
      cases v <;> cases u <;> simp [Value.equals]
    have both : inValues v (u :: vs) = .no ↔ v.equals u = .no ∧ inValues v vs = .no := by
      rw [inValues]
      cases v.equals u <;> cases inValues v vs <;> decide
    rw [both, ih, differs]
    constructor
    · intro parts
      obtain ⟨⟨probe,other,apart⟩,rest⟩ := parts
      obtain empty | ⟨_,noNull,absent⟩ := rest
      · subst empty
        simp [probe, other.symm, apart]
      · simp [probe, other.symm, apart, noNull, absent]
    · intro parts
      simp only [reduceCtorEq, mem_cons, not_or, false_or] at parts
      exact ⟨⟨parts.1,fun same => parts.2.1.1 same.symm,parts.2.2.1⟩,
        .inr ⟨parts.1,parts.2.1.2,parts.2.2.2⟩⟩

/-- A NULL probe meets an empty result only, and a NULL in the result stands beside
the probe's own value. -/
def NullsBeside (probe : Value) (values : List Value) : Prop :=
  (probe = .null → values = []) ∧ (.null ∈ values → probe ∈ values)

theorem anti_keeps_notIn (probe : Value) (values : List Value) :
    (!(inValues probe values).holds) = (inValues probe values).not.holds ↔ NullsBeside probe values := by
  rw [Bool.eq_iff_iff, Bool.not_eq_true', ← Bool.not_eq_true, Kleene.holds_iff, Kleene.holds_iff,
    Kleene.not_eq_yes, inValues_eq_yes, inValues_eq_no, NullsBeside]
  by_cases null : probe = .null
  · simp +contextual [null]
  · have empty : values = [] → .null ∉ values ∧ probe ∉ values := by
      intro none
      simp [none]
    tauto

theorem holds_inValues_agree (probe : Value) (agree : ∀ v, v ≠ .null → (v ∈ values' ↔ v ∈ values)) :
    (inValues probe values').holds = (inValues probe values).holds := by
  rw [Bool.eq_iff_iff, Kleene.holds_iff, Kleene.holds_iff, inValues_eq_yes, inValues_eq_yes]
  exact and_congr_right (agree probe)

theorem holds_inValues_map (probe : Value) (f : Row → Value) (xs : List Row) :
    (inValues probe (xs.map f)).holds = xs.any fun x => (probe.equals (f x)).holds := by
  induction xs with
  | nil => rfl
  | cons x xs ih => rw [map_cons, inValues, Kleene.holds_or, ih, any_cons]

theorem aliasRef_unqualified (q : String) (columns : List String) (s : Scope) (name : String) :
    aliasRef q columns s (none, name) = (none, name) := by
  rw [aliasRef, if_neg]
  simp

theorem aliasRef_output (member : name ∈ columns) (answered : s.resolves (none, name) = true) :
    aliasRef q columns s (some q, name) = (none, name) := by
  rw [aliasRef, if_pos ⟨rfl,member,answered⟩]

def andAlso (filter : Option TypedExpr) (e : TypedExpr) : Option TypedExpr :=
  match filter with
  | none => some e
  | some existing => some ⟨.binaryOp existing .and e, .boolean, false⟩

def notNull (col : OutputColumn) : TypedExpr :=
  ⟨.isNull ⟨.columnRef none col.name, col.dataType, col.nullable⟩ true, .boolean, false⟩

/-- NOT IN: the subquery's WHERE also asks for its output's name to be non-NULL. -/
def excludeNulls (col : OutputColumn) (sub : ResolvedQuery) : ResolvedQuery :=
  match sub.body with
  | .select sel =>
    { sub with body := .select { sel with filter := andAlso sel.filter (notNull col) } }
  | .plan _ => sub

def joinedSubquery (negated : Bool) (col : OutputColumn) (sub : ResolvedQuery) : ResolvedQuery :=
  if negated then excludeNulls col sub else sub

theorem joinedSubquery_outputColumns (negated : Bool) (col : OutputColumn) (sub : ResolvedQuery) :
    (joinedSubquery negated col sub).outputColumns = sub.outputColumns := by
  obtain ⟨body,orderBy,limit,offset,columns⟩ := sub
  cases negated <;> cases body <;> rfl

section
variable [CaseFolding]

/-- The output column is spelled with the alias only against a plain column of
the same bare name. -/
def rhsNeedsQualifier (lhs : TypedExpr) (col : OutputColumn) : Bool :=
  match lhs.kind with
  | .columnRef _ c => lower c == lower col.name
  | _ => false

def inEquality (id : Nat) (lhs : TypedExpr) (col : OutputColumn) : TypedExpr :=
  ⟨.binaryOp lhs .eq
    ⟨.columnRef (if rhsNeedsQualifier lhs col then some (sqAlias id) else none) col.name,
      col.dataType, col.nullable⟩, .boolean, false⟩

def matchColumn (id : Nat) : String :=
  "__in_match_" ++ toString id

/-- Below OR: distinct values, with a second copy that tells a partner from none. -/
def markMatches (id : Nat) (col : OutputColumn) (sub : ResolvedQuery) : ResolvedQuery :=
  let outputColumns := sub.outputColumns ++ [⟨matchColumn id, col.dataType, true⟩]
  match sub.body with
  | .select sel =>
    { sub with
      body := .select { sel with
        distinct := true
        projection := sel.projection ++
          [⟨⟨.columnRef none col.name, col.dataType, col.nullable⟩, matchColumn id⟩] }
      outputColumns := outputColumns }
  | .plan _ => { sub with outputColumns := outputColumns }

def rewriteInSubquery (id : Nat) (negated : Bool) (inExpr : Option TypedExpr)
    (sub : ResolvedQuery) (sel : ResolvedSelect) : Except String ResolvedSelect :=
  match inExpr, sub.outputColumns with
  | none, _ => .error "IN subquery rewrite: missing left-hand expression"
  | some _, [] => .error "IN subquery must produce at least one column"
  | some lhs, col :: _ =>
    let source := takeFromOrSynthesizeSingleRow sel.source
    let on := some (inEquality id lhs col)
    if sel.filter.any (isPlaceholderInsideOr id) then
      let isMatch : TypedExpr :=
        ⟨.isNull ⟨.columnRef none (matchColumn id), col.dataType, true⟩ (!negated), .boolean, false⟩
      .ok { sel with
        source := some (.join source (.subquery (markMatches id col sub) (sqAlias id)) .leftOuter on)
        filter := replacePlaceholderInFilter id isMatch sel.filter
        having := replacePlaceholderInFilter id isMatch sel.having }
    else
      .ok { sel with
        source := some (.join source (.subquery (joinedSubquery negated col sub) (sqAlias id))
          (if negated then .leftAnti else .leftSemi) on)
        filter := removePlaceholderFromFilter id sel.filter
        having := removePlaceholderFromFilter id sel.having }

/-! What SQL asks for. -/

def subqueryValues (w : World) (ctes : Nat → List Row) (o : Outer) (sub : ResolvedQuery)
    (col : OutputColumn) : List Value :=
  (rows w ctes o (planQuery w.interp sub)).map fun row => row.look (none, lower col.name)

/-- The predicate on one row: the subquery is run for the row, the comparison
with each value is three-valued. -/
def inPredicate (w : World) (ctes : Nat → List Row) (o : Outer) (source : LogicalPlan)
    (subs : Row → Nat → Value) (negated : Bool) (lhs : TypedExpr) (sub : ResolvedQuery)
    (col : OutputColumn) (row : Row) : Value :=
  let env := (envOf (scopeOf w.interp source) o row.look).col
  .ofKleene (negateIf negated
    (inValues (eval w.interp ⟨env, subs row⟩ lhs) (subqueryValues w ctes env sub col)))

/-! The join. -/

/-- On the joined row the comparison reads the probe on the left and the output
column on the right. A plain column always does; any other probe must read
nothing the subquery answers, and the output's name must be new to the FROM. -/
def ProbeApart (i : Interp) (source : LogicalPlan) (joined : LogicalPlan) (lhs : TypedExpr)
    (col : OutputColumn) : Prop :=
  placeholdersIn lhs = [] ∧
    ((∃ q c t n, lhs = ⟨.columnRef q c, t, n⟩) ∨
      (∀ r ∈ reads i lhs, r.1 = none ∨ (scopeOf i joined).resolves r = false) ∧
        (scopeOf i source).resolves (none, lower col.name) = false)

section
variable {id : Nat} {col : OutputColumn}

def outputRef (id : Nat) (lhs : TypedExpr) (col : OutputColumn) : QualifiedRef :=
  foldRef (if rhsNeedsQualifier lhs col then some (sqAlias id) else none) col.name

theorem aliasRef_outputRef
    (member : lower col.name ∈ columns) (answered : s.resolves (none, lower col.name) = true) :
    aliasRef (lower (sqAlias id)) columns s (outputRef id lhs col) = (none, lower col.name) := by
  rw [outputRef, foldRef]
  cases rhsNeedsQualifier lhs col with
  | false => exact aliasRef_unqualified _ _ _ _
  | true => exact aliasRef_output member answered

section
variable (o : Outer) (member : lower col.name ∈ columnNames columns)
  (answered : (scopeOf i query).resolves (none, lower col.name) = true)
  (probe : inScope i (scopeOf i source) lhs = true) (l r : Row)

include member answered in
theorem outputRef_resolves (id : Nat) (lhs : TypedExpr) :
    (scopeOf i (.subqueryAlias query (sqAlias id) columns)).resolves (outputRef id lhs col) = true := by
  have spelled : aliasRef (lower (sqAlias id)) (columnNames columns) (scopeOf i query)
      (outputRef id lhs col) = (none, lower col.name) := aliasRef_outputRef member answered
  rw [Scope.resolves, scopeOf]
  dsimp only
  rw [spelled]
  exact answered

def aliasedRow (i : Interp) (id : Nat) (query : LogicalPlan) (columns : List OutputColumn) (r : Row) : Row :=
  ⟨r.cells, fun ref =>
    r.look (aliasRef (lower (sqAlias id)) (columnNames columns) (scopeOf i query) ref)⟩

include member answered in
theorem aliasedRow_output (id : Nat) (lhs : TypedExpr) :
    (aliasedRow i id query columns r).look (outputRef id lhs col) = r.look (none, lower col.name) := by
  exact congrArg r.look (aliasRef_outputRef member answered)

include member answered probe in
/-- A plain column is compared as a join key, each side looked up on its own. -/
theorem inEquality_column (column : ∃ q c t n, lhs = ⟨.columnRef q c, t, n⟩) :
    conjunctMatches i (scopeOf i source) (scopeOf i (.subqueryAlias query (sqAlias id) columns)) o
        (inEquality id lhs col) l.look (aliasedRow i id query columns r).look =
      ((eval i (envOf (scopeOf i source) o l.look) lhs).equals
        (r.look (none, lower col.name))).holds := by
  have output := aliasedRow_output member answered r id lhs
  have resolves := outputRef_resolves member answered id lhs
  obtain ⟨q,c,t,n,rfl⟩ := column
  have mine : (scopeOf i source).resolves (foldRef q c) = true := by
    simpa [inScope, reads, refsWith] using probe
  have keys : columnEq (inEquality id ⟨.columnRef q c,t,n⟩ col) =
      some (foldRef q c, outputRef id ⟨.columnRef q c,t,n⟩ col) := rfl
  rw [conjunctMatches, keys]
  dsimp only
  rw [if_pos (by rw [mine, resolves]; rfl), output, eval, col_envOf o mine]

theorem truthOf_inEquality (env : Env) :
    truthOf i env (inEquality id lhs col) = (eval i env lhs).equals (env.col (outputRef id lhs col)) := by
  rw [inEquality, truthOf, eval, eval, binary, Value.truth_ofKleene]
  · rfl
  all_goals simp

include member answered probe in
theorem inEquality_expression (other : ¬ ∃ q c t n, lhs = ⟨.columnRef q c, t, n⟩)
    (apart : ∀ ref ∈ reads i lhs, ref.1 = none ∨
      (scopeOf i (.subqueryAlias query (sqAlias id) columns)).resolves ref = false)
    (fresh : (scopeOf i source).resolves (none, lower col.name) = false) :
    conjunctMatches i (scopeOf i source) (scopeOf i (.subqueryAlias query (sqAlias id) columns)) o
        (inEquality id lhs col) l.look (aliasedRow i id query columns r).look =
      ((eval i (envOf (scopeOf i source) o l.look) lhs).equals
        (r.look (none, lower col.name))).holds := by
  have output := aliasedRow_output member answered r id lhs
  have resolves := outputRef_resolves member answered id lhs
  have plain : columnEq (inEquality id lhs col) = none ∧ rhsNeedsQualifier lhs col = false := by
    obtain ⟨kind,t,n⟩ := lhs
    cases kind <;> first | exact ⟨rfl,rfl⟩ | exact (other ⟨_,_,_,_,rfl⟩).elim
  have spelled : outputRef id lhs col = (none, lower col.name) := by
    rw [outputRef, plain.2]
    rfl
  rw [spelled] at output resolves
  rw [conjunctMatches, plain.1]
  dsimp only
  rw [truthOf_inEquality, spelled]
  apply congrArg
  apply congrArg₂
  · apply eval_congr
    · rfl
    · intro ref read
      have mine := all_eq_true.mp probe ref read
      have taken : fromLeft (scopeOf i source)
          (scopeOf i (.subqueryAlias query (sqAlias id) columns)) ref = true := by
        obtain bare | hidden := apart ref read
        · simp [fromLeft, mine, bare]
        · simp [fromLeft, mine, hidden]
      have seen := mergeLook_left l.look (aliasedRow i id query columns r).look taken
      simp [envOf, mine, seen]
  · simp only [envOf, Scope.resolves_merge, resolves, Bool.or_true, if_true]
    rw [mergeLook_right _ _ (by simp [fromRight, resolves, fresh]), output]

include member answered probe in
theorem inEquality_matches (apart : ProbeApart i source (.subqueryAlias query (sqAlias id) columns) lhs col) :
    conditionMatches i (scopeOf i source) (scopeOf i (.subqueryAlias query (sqAlias id) columns)) o
        (some (inEquality id lhs col)) l (aliasedRow i id query columns r) =
      ((eval i (envOf (scopeOf i source) o l.look) lhs).equals
        (r.look (none, lower col.name))).holds := by
  have single : joinConjuncts (inEquality id lhs col) = [inEquality id lhs col] := rfl
  rw [conditionMatches, single, all_cons, all_nil, Bool.and_true]
  by_cases column : ∃ q c t n, lhs = ⟨.columnRef q c,t,n⟩
  · exact inEquality_column o member answered probe l r column
  · obtain ⟨reads,fresh⟩ := apart.2.resolve_left column
    exact inEquality_expression o member answered probe l r column reads fresh

end
end

/-- `SELECT [DISTINCT] e AS name FROM .. WHERE ..`. -/
def selectOne (source : Option Relation) (condition : Option TypedExpr) (item : ProjectItem)
    (distinct : Bool) : ResolvedQuery :=
  ⟨.select ⟨source, condition, [], none, [item], false, distinct⟩, [], none, none, projected [item]⟩

section
variable {w : World} {ctes : Nat → List Row} {o : Outer} {source : Option Relation}
  {item : ProjectItem} {col : OutputColumn}

theorem planQuery_selectOne (i : Interp) (source : Option Relation) (condition : Option TypedExpr)
    (item : ProjectItem) (distinct : Bool) : planQuery i (selectOne source condition item distinct) =
      if distinct then buildDistinct (.project (filterWith (planSource i source) condition) [item]) [item]
      else .project (filterWith (planSource i source) condition) [item] := by
  cases distinct <;> rfl

theorem scopeOf_filterWith (i : Interp) (input : LogicalPlan) (condition : Option TypedExpr) :
    scopeOf i (filterWith input condition) = scopeOf i input := by
  cases condition <;> rfl

theorem scope_project_one (i : Interp) (input : LogicalPlan) (item : ProjectItem) :
    scopeOf i (.project input [item]) (none, lower item.outputName) = some 0 := by
  simp only [scopeOf, projectBindings, Scope.ofBindings, zipIdx_singleton, flatMap_singleton,
    reverse_cons, find?_append]
  unfold qualifiedAlias
  split <;> simp

theorem scope_distinct_one (i : Interp) (input : LogicalPlan) (item : ProjectItem) :
    scopeOf i (buildDistinct input [item]) (none, lower item.outputName) = some 0 := by
  simp [buildDistinct, scopeOf, aggregateBindings, Scope.ofBindings, displayName, qualifiedAlias]

theorem mem_values_selectOne (same : col.name = item.outputName) :
    v ∈ subqueryValues w ctes o (selectOne source condition item distinct) col ↔
      ∃ row ∈ rows w ctes o (filterWith (planSource w.interp source) condition),
        eval w.interp (envOf (scopeOf w.interp (planSource w.interp source)) o row.look) item.expr = v := by
  rw [subqueryValues, same, planQuery_selectOne, ← scopeOf_filterWith w.interp _ condition]
  generalize filterWith (planSource w.interp source) condition = input
  have cell := scope_project_one w.interp input item
  cases distinct with
  | false =>
    rw [if_neg (by simp), rows]
    simp [cellRow, cell]
  | true =>
    have resolved : (scopeOf w.interp (.project input [item])).resolves (none, lower item.outputName) = true := by
      simp [Scope.resolves, cell]
    have slot := scope_distinct_one w.interp (.project input [item]) item
    simp only [buildDistinct, map_cons, map_nil] at slot
    rw [if_pos rfl, buildDistinct, rows, rows]
    simp [cellRow, slot, aggregateCells, groupRows, evalList, eval, foldRef, col_envOf o resolved, cell]

theorem wellScoped_selectOne (i : Interp) (source : Option Relation) (condition : Option TypedExpr)
    (item : ProjectItem) (distinct : Bool) :
    wellScoped i (planQuery i (selectOne source condition item distinct)) =
      (wellScoped i (filterWith (planSource i source) condition) &&
        inScope i (scopeOf i (planSource i source)) item.expr) := by
  rw [planQuery_selectOne, ← scopeOf_filterWith i _ condition]
  generalize filterWith (planSource i source) condition = input
  cases distinct with
  | false => simp [wellScoped]
  | true =>
    have cell := scope_project_one i input item
    simp [buildDistinct, wellScoped, inScope, reads, refsWith, foldRef, Scope.resolves, cell]

theorem rows_filterWith_notNull (input : LogicalPlan) (condition : Option TypedExpr)
    (answers : (scopeOf w.interp input).resolves (none, lower col.name) = true) :
    rows w ctes o (filterWith input (andAlso condition (notNull col))) =
      (rows w ctes o (filterWith input condition)).filter fun row => row.look (none, lower col.name) != .null := by
  have test : ∀ row : Row, accepts w.interp (scopeOf w.interp input) o (notNull col) row =
      (row.look (none, lower col.name) != .null) := by
    intro row
    simp only [notNull, accepts, truthOf, eval, foldRef, Option.map_none, col_envOf o answers]
    cases row.look (none, lower col.name) <;> rfl
  cases condition with
  | none =>
    simp only [andAlso, filterWith, rows]
    exact filter_congr fun row _ => test row
  | some e =>
    simp only [andAlso, filterWith, rows, filter_filter]
    refine filter_congr fun row _ => ?_
    rw [← test row, accepts, truthOf_and, Kleene.holds_and, Bool.and_comm]
    rfl

theorem wellScoped_filterWith_notNull (i : Interp) (input : LogicalPlan) (condition : Option TypedExpr)
    (answers : (scopeOf i input).resolves (none, lower col.name) = true) :
    wellScoped i (filterWith input (andAlso condition (notNull col))) = wellScoped i (filterWith input condition) := by
  cases condition <;>
    simp [andAlso, notNull, filterWith, wellScoped, inScope, reads, refsWith, foldRef, answers]

end

/-- The NULL test added for NOT IN loses no result but NULL. A set operation gets no
test. In a plain SELECT it tests the FROM's column of the output's name, which the FROM
must have, and which must not be NULL where the output is not. -/
inductive NullTestFits (w : World) (ctes : Nat → List Row) (o : Outer) : ResolvedQuery → Prop
  | setOperation {p : LogicalPlan} {orderBy : List SortItem} {limit offset : Option Nat}
      {columns : List OutputColumn} : NullTestFits w ctes o ⟨.plan p, orderBy, limit, offset, columns⟩
  | select {source : Option Relation} {condition : Option TypedExpr} {item : ProjectItem} {distinct : Bool}
      (answers : (scopeOf w.interp (planSource w.interp source)).resolves (none, lower item.outputName) = true)
      (kept : ∀ row ∈ rows w ctes o (filterWith (planSource w.interp source) condition),
        eval w.interp (envOf (scopeOf w.interp (planSource w.interp source)) o row.look) item.expr ≠ .null →
          row.look (none, lower item.outputName) ≠ .null) :
      NullTestFits w ctes o (selectOne source condition item distinct)

section
variable {w : World} {ctes : Nat → List Row} {o : Outer}

/-- `SELECT c FROM .. WHERE ..` tests its own output. -/
theorem NullTestFits.column (col : OutputColumn) (condition : Option TypedExpr) (distinct : Bool)
    (answers : (scopeOf w.interp (planSource w.interp source)).resolves (none, lower col.name) = true) :
    NullTestFits w ctes o (selectOne source condition
      ⟨⟨.columnRef none col.name, col.dataType, col.nullable⟩, col.name⟩ distinct) := by
  refine .select answers fun row _ value => ?_
  simpa [eval, foldRef, col_envOf o answers] using value

/-- What is joined has the scope of the subquery, is accepted where it is, and has the
same values but for NULL. -/
theorem joinedSubquery_agrees (fits : negated = true → NullTestFits w ctes o sub)
    (output : sub.outputColumns = col :: others) :
    scopeOf w.interp (planQuery w.interp (joinedSubquery negated col sub)) =
        scopeOf w.interp (planQuery w.interp sub) ∧
      wellScoped w.interp (planQuery w.interp (joinedSubquery negated col sub)) =
        wellScoped w.interp (planQuery w.interp sub) ∧
      ∀ v, v ≠ .null → (v ∈ subqueryValues w ctes o (joinedSubquery negated col sub) col ↔
        v ∈ subqueryValues w ctes o sub col) := by
  cases negated with
  | false => exact ⟨rfl,rfl,fun _ _ => Iff.rfl⟩
  | true =>
    cases fits rfl with
    | setOperation => exact ⟨rfl,rfl,fun _ _ => Iff.rfl⟩
    | @select source condition item distinct answers kept =>
      have same : col.name = item.outputName := by
        cases output
        rfl
      rw [← same] at answers kept
      have joined : joinedSubquery true col (selectOne source condition item distinct) =
        selectOne source (andAlso condition (notNull col)) item distinct := rfl
      rw [joined]
      refine ⟨?_,?_,fun v known => ?_⟩
      · rw [planQuery_selectOne, planQuery_selectOne]
        cases distinct <;> rfl
      · rw [wellScoped_selectOne, wellScoped_selectOne, wellScoped_filterWith_notNull _ _ _ answers]
      · rw [mem_values_selectOne same, mem_values_selectOne same, rows_filterWith_notNull _ _ answers]
        refine exists_congr fun row => ?_
        rw [mem_filter, and_assoc]
        refine and_congr_right fun member => and_iff_right_of_imp fun value => ?_
        simpa using kept row member (value ▸ known)

end

section
variable {w : World} (ctes : Nat → List Row) (o : Outer) {id : Nat} (member : col ∈ sub.outputColumns)
  (answered : (scopeOf w.interp (planQuery w.interp sub)).resolves (none, lower col.name) = true)
  (probe : inScope w.interp (scopeOf w.interp source) lhs = true)
  (apart : ProbeApart w.interp source (planRelation w.interp (.subquery sub (sqAlias id))) lhs col)

include member answered probe apart in
theorem hasPartner_inEquality (l : Row) :
    hasPartner (conditionMatches w.interp (scopeOf w.interp source)
        (scopeOf w.interp (planRelation w.interp (.subquery sub (sqAlias id)))) o
        (some (inEquality id lhs col)))
      (rows w ctes o (planRelation w.interp (.subquery sub (sqAlias id)))) l =
      (inValues (eval w.interp (envOf (scopeOf w.interp source) o l.look) lhs)
        (subqueryValues w ctes o sub col)).holds := by
  have named : lower col.name ∈ columnNames sub.outputColumns := mem_map_of_mem member
  rw [subqueryValues, holds_inValues_map, hasPartner]
  simp only [planRelation] at apart ⊢
  rw [rows, any_map]
  apply any_congr_mem
  intro r _
  exact inEquality_matches o named answered probe l r apart

include member answered probe in
theorem wellScoped_inJoin (accepted : wellScoped w.interp source = true) (kind : JoinKind) :
    wellScoped w.interp (.join source (planRelation w.interp (.subquery sub (sqAlias id))) kind
        (some (inEquality id lhs col))) = wellScoped w.interp (planQuery w.interp sub) := by
  have named : lower col.name ∈ columnNames sub.outputColumns := mem_map_of_mem member
  have resolved : inScope w.interp (.merge (width w.interp source) (scopeOf w.interp source)
      (scopeOf w.interp (planRelation w.interp (.subquery sub (sqAlias id)))))
      (inEquality id lhs col) = true := by
    have reading : reads w.interp (inEquality id lhs col) =
        reads w.interp lhs ++ [outputRef id lhs col] := rfl
    rw [inScope, reading, all_append, Bool.and_eq_true]
    constructor
    · apply all_eq_true.mpr
      intro r read
      rw [Scope.resolves_merge, all_eq_true.mp probe r read]
      rfl
    · rw [all_cons, all_nil, Scope.resolves_merge, planRelation,
        outputRef_resolves named answered, Bool.or_true]
      rfl
  rw [wellScoped, accepted, Option.toList_some, all_cons, all_nil, resolved, planRelation, wellScoped]
  simp

end

section
variable {w : World} (ctes : Nat → List Row) (o : Outer) (subs : Row → Nat → Value)

def outerSource (i : Interp) (sel : ResolvedSelect) : LogicalPlan :=
  planRelation i (takeFromOrSynthesizeSingleRow sel.source)

/-- The rewriting succeeds, its FROM is accepted, and the rows that are kept are
those SQL keeps for the predicate. -/
def InRewriteExact (w : World) (ctes : Nat → List Row) (o : Outer) (subs : Row → Nat → Value)
    (id : Nat) (negated : Bool) (lhs : TypedExpr) (sub : ResolvedQuery) (col : OutputColumn)
    (sel : ResolvedSelect) : Prop :=
  ∃ sel', rewriteInSubquery id negated (some lhs) sub sel = .ok sel' ∧
    wellScoped w.interp (planSource w.interp sel'.source) = true ∧
    SameBag (keptRows w ctes o subs (planSource w.interp sel'.source) sel'.filter)
      (keptRows w ctes o
        (withSub subs id (inPredicate w ctes o (outerSource w.interp sel) subs negated lhs sub col))
        (outerSource w.interp sel) sel.filter)

/-- Names, scope and NULLs: the comparison reads the probe and the output column, the
subquery stands alone, and for NOT IN its NULL test loses nothing and a NULL stands only
beside the probe's value, on each row that passes the rest of the predicate. -/
structure InRewriteFits (w : World) (ctes : Nat → List Row) (o : Outer) (subs : Row → Nat → Value)
    (id : Nat) (negated : Bool) (lhs : TypedExpr) (sub : ResolvedQuery) (col : OutputColumn)
    (sel : ResolvedSelect) (e : TypedExpr) : Prop where
  apart : ProbeApart w.interp (outerSource w.interp sel)
    (planRelation w.interp (.subquery sub (sqAlias id))) lhs col
  alone : wellScoped w.interp (planQuery w.interp sub) = true
  tested : negated = true → NullTestFits w ctes o sub
  nulls : negated = true → ∀ row ∈ rows w ctes o (outerSource w.interp sel),
    restHolds w o subs (outerSource w.interp sel) id e row = true →
      NullsBeside (eval w.interp (envOf (scopeOf w.interp (outerSource w.interp sel)) o row.look) lhs)
        (subqueryValues w ctes o sub col)

def inJoin (i : Interp) (id : Nat) (negated : Bool) (lhs : TypedExpr) (sub : ResolvedQuery)
    (col : OutputColumn) (sel : ResolvedSelect) : LogicalPlan :=
  .join (outerSource i sel)
    (planRelation i (.subquery (joinedSubquery negated col sub) (sqAlias id)))
    (if negated then .leftAnti else .leftSemi) (some (inEquality id lhs col))

theorem rewriteInSubquery_conjunct (i : Interp) {id : Nat} (negated : Bool) (lhs : TypedExpr)
    (filter : sel.filter = some e)
    (conjunct : atConjunct id e = true) (output : sub.outputColumns = col :: others) :
    ∃ sel', rewriteInSubquery id negated (some lhs) sub sel = .ok sel' ∧
      planSource i sel'.source = inJoin i id negated lhs sub col sel ∧
      sel'.filter = removePlaceholderFromFilter id (some e) := by
  have inside : sel.filter.any (isPlaceholderInsideOr id) = false := by
    rw [filter, Option.any_some, insideOr_conjunct e conjunct]
  rw [rewriteInSubquery.eq_def, output]
  dsimp only
  rw [if_neg (by rw [inside]; simp)]
  refine ⟨_,rfl,rfl,?_⟩
  rw [← filter]

theorem rows_inJoin (i : Interp) (id : Nat) (negated : Bool) (lhs : TypedExpr)
    (sub : ResolvedQuery) (col : OutputColumn) (sel : ResolvedSelect) (same : w.interp = i) :
    rows w ctes o (inJoin i id negated lhs sub col sel) =
      (rows w ctes o (outerSource i sel)).filter fun l =>
        hasPartner (conditionMatches i (scopeOf i (outerSource i sel))
          (scopeOf i (planRelation i (.subquery (joinedSubquery negated col sub) (sqAlias id)))) o
          (some (inEquality id lhs col)))
          (rows w ctes o (planRelation i (.subquery (joinedSubquery negated col sub) (sqAlias id))))
          l != negated := by
  subst same
  cases negated with
  | true | false =>
    apply filter_congr
    simp

theorem scopeOf_inJoin (i : Interp) (id : Nat) (negated : Bool) (lhs : TypedExpr)
    (sub : ResolvedQuery) (col : OutputColumn) (sel : ResolvedSelect) :
    scopeOf i (inJoin i id negated lhs sub col sel) = scopeOf i (outerSource i sel) := by
  cases negated <;> rfl

/-- On one row the join keeps what the predicate keeps, NULLs aside. -/
theorem partner_is_predicate (plain : placeholdersIn lhs = [])
    (alone : wellScoped w.interp (planQuery w.interp sub) = true)
    (agree : ∀ v, v ≠ .null → (v ∈ subqueryValues w ctes o (joinedSubquery negated col sub) col ↔
      v ∈ subqueryValues w ctes o sub col)) (row : Row) :
    ((inValues (eval w.interp (envOf (scopeOf w.interp source) o row.look) lhs)
          (subqueryValues w ctes o (joinedSubquery negated col sub) col)).holds != negated) =
        (inPredicate w ctes o source subs negated lhs sub col row).truth.holds ↔
      (negated = true → NullsBeside (eval w.interp (envOf (scopeOf w.interp source) o row.look) lhs)
          (subqueryValues w ctes o sub col)) := by
  have probe : eval w.interp ⟨(envOf (scopeOf w.interp source) o row.look).col,subs row⟩ lhs =
      eval w.interp (envOf (scopeOf w.interp source) o row.look) lhs := by
    apply eval_agrees
    · intro k here
      rw [plain] at here
      cases here
    · intro r _
      rfl
  have closed : subqueryValues w ctes (envOf (scopeOf w.interp source) o row.look).col sub col =
      subqueryValues w ctes o sub col := by
    rw [subqueryValues, subqueryValues, rows_closed w _ o _ ctes alone]
  rw [holds_inValues_agree _ agree, inPredicate, probe, Value.truth_ofKleene, closed]
  cases negated with
  | true =>
    rw [← anti_keeps_notIn]
    simp [negateIf]
  | false => simp [negateIf]

section
variable {id : Nat} {negated : Bool} {lhs : TypedExpr} {sub : ResolvedQuery} {col : OutputColumn}
  {others : List OutputColumn} {sel : ResolvedSelect} {e : TypedExpr} (filter : sel.filter = some e)
  (conjunct : atConjunct id e = true) (output : sub.outputColumns = col :: others)
  (accepted : wellScoped w.interp (outerSource w.interp sel) = true)
  (probe : inScope w.interp (scopeOf w.interp (outerSource w.interp sel)) lhs = true)
  (answered : (scopeOf w.interp (planQuery w.interp sub)).resolves (none, lower col.name) = true)
include filter conjunct output accepted probe answered

theorem inRewriteExact_iff (apart : ProbeApart w.interp (outerSource w.interp sel)
      (planRelation w.interp (.subquery sub (sqAlias id))) lhs col)
    (tested : negated = true → NullTestFits w ctes o sub) :
    InRewriteExact w ctes o subs id negated lhs sub col sel ↔
      InRewriteFits w ctes o subs id negated lhs sub col sel e := by
  obtain ⟨scope,standing,agree⟩ := joinedSubquery_agrees tested output
  have columns := joinedSubquery_outputColumns negated col sub
  have member : col ∈ (joinedSubquery negated col sub).outputColumns := by
    rw [columns, output]
    exact mem_cons_self
  rw [← scope] at answered
  have apart' : ProbeApart w.interp (outerSource w.interp sel)
      (planRelation w.interp (.subquery (joinedSubquery negated col sub) (sqAlias id))) lhs col := by
    simpa only [ProbeApart, planRelation, scopeOf, scope, columns] using apart
  obtain ⟨sel',done,from',filter'⟩ :=
    rewriteInSubquery_conjunct w.interp negated lhs filter conjunct output
  have valid : wellScoped w.interp (planSource w.interp sel'.source) =
      wellScoped w.interp (planQuery w.interp sub) := by
    rw [from', inJoin, wellScoped_inJoin member answered probe accepted, standing]
  have fits : InRewriteFits w ctes o subs id negated lhs sub col sel e ↔ _ ∧ _ :=
    ⟨fun fits => ⟨fits.alone,fun row here rest negative => fits.nulls negative row here rest⟩,
      fun both => ⟨apart,both.1,tested,fun negative row here rest => both.2 row here rest negative⟩⟩
  simp only [fits, InRewriteExact, done, Except.ok.injEq, exists_eq_left', valid]
  refine and_congr_right fun alone => ?_
  rw [filter, filter', from', keptRows_conjunct _ _ e conjunct,
    keptRows_removed _ e (scopeOf_inJoin ..) (rows_inJoin ctes o w.interp id negated lhs sub col
      sel rfl), SameBag, perm_filter_iff]
  refine forall₂_congr fun row _ => ?_
  rw [hasPartner_inEquality ctes o member answered probe apart',
    ← partner_is_predicate ctes o subs apart.1 alone agree row]
  cases restHolds w o subs (outerSource w.interp sel) id e row <;> simp

end
end

end

def ordersScan : Relation :=
  .plan (.scan (.whole "orders" none ["id", "amount"]))

def orderIdColumn : OutputColumn := ⟨"order_id", .int64, true⟩

def cancelledOrders : ResolvedQuery :=
  selectOne (some (.plan (.scan (.whole "cancelled" none ["order_id"])))) none
    ⟨⟨.columnRef none "order_id", .int64, true⟩, "order_id"⟩ false

/-- `SELECT id FROM orders WHERE id NOT IN (cancelledOrders) AND amount > 0`. -/
def liveOrders : ResolvedSelect :=
  ⟨some ordersScan,
    some (.test ⟨.subqueryPlaceholder 0 (.inSubquery true) .boolean, .boolean, true⟩ .and
      (.test (.column none "amount") .gt (.int 0))),
    [], none, [⟨.column none "id", "id"⟩], false, false⟩

def orderTables (cancelled : List (List Value)) : World :=
  .ofTables [("orders", ["id", "amount"], [[.int 1, .int 5], [.int 2, .int 7]]),
    ("cancelled", ["order_id"], cancelled)]

instance (probe : Value) (values : List Value) : Decidable (NullsBeside probe values) :=
  inferInstanceAs (Decidable (_ ∧ _))

end NovaRocks
