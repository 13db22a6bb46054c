import Mathlib.Algebra.Ring.Nat
import NovaRocks.Store.Checked
import Mathlib.Data.List.Forall2
import Mathlib.Data.List.Induction

/-!
Shuffle joins. Both inputs of the join are asked for one hash distribution, on the columns of
all its equality conditions, left and right sides mixed; the exchange below an input hashes by
those of the columns the input knows, each bare name once. Rows that agree on the join's keys
must get to the same instance.
-/
namespace NovaRocks.Codegen
open List

/-! ### Columns and scopes -/

structure ColumnRef where
  qualifier : Option String
  column : String
  deriving DecidableEq

structure ColumnBinding (T : Type) where
  tupleId : Int
  slotId : Int
  /-- The type of the slot, or why it has none. -/
  typeDesc : Except String T

structure SlotRef (T : Type) where
  slotId : Int
  tupleId : Int
  typeDesc : T
  deriving DecidableEq

/-- The columns of an input by qualifier and name, and by name; names are in lower case. -/
structure ExprScope (T : Type) where
  qualified : String × String → Option (ColumnBinding T)
  unqualified : String → Option (ColumnBinding T)

section
variable {T : Type} (lower : String → String)

def ExprScope.resolveColumn (scope : ExprScope T) (col : ColumnRef) : Except String (ColumnBinding T) :=
  match col.qualifier with
  | some qualifier =>
    match scope.qualified (lower qualifier, lower col.column) with
    | some binding => .ok binding
    | none => .error s!"Column '{qualifier}.{col.column}' cannot be resolved."
  | none =>
    match scope.unqualified (lower col.column) with
    | some binding => .ok binding
    | none => .error s!"Column '{col.column}' cannot be resolved."

def ColumnBinding.slotRef (binding : ColumnBinding T) : Except String (SlotRef T) := do
  let typeDesc ← binding.typeDesc
  .ok ⟨binding.slotId, binding.tupleId, typeDesc⟩

def ExprScope.compileColumn (scope : ExprScope T) (col : ColumnRef) : Except String (SlotRef T) := do
  let binding ← scope.resolveColumn lower col
  binding.slotRef

/-! ### Distributions -/

inductive DistributionSpec where
  | any
  | gather
  | hashPartitioned (cols : List ColumnRef)
  deriving DecidableEq

def DistributionSpec.satisfies (mine required : DistributionSpec) : Bool :=
  match required with
  | .any => true
  | .gather => mine = .gather
  | .hashPartitioned reqCols =>
    match mine with
    | .hashPartitioned myCols => myCols = reqCols
    | _ => false

inductive KeyExpr where
  | columnRef (col : ColumnRef)
  | other

def typedExprToColumnRef : KeyExpr → Option ColumnRef
  | .columnRef col => some col
  | .other => none

def hashOr (cols : List ColumnRef) (otherwise : DistributionSpec) : DistributionSpec :=
  if cols.isEmpty then otherwise else .hashPartitioned cols

def requiredInputDistribution (eqConditions : List (KeyExpr × KeyExpr)) : DistributionSpec :=
  let allCols := eqConditions.flatMap fun (l, r) =>
    (typedExprToColumnRef l).toList ++ (typedExprToColumnRef r).toList
  hashOr allCols .any

inductive JoinDistribution where
  | shuffle
  | broadcast
  | colocate

/-- The physical operators by what they say about their output; aggregates say it in every mode. -/
inductive PhysicalOperator where
  | hashJoin (distribution : JoinDistribution) (eqConditions : List (KeyExpr × KeyExpr))
  | hashAggregate (groupBy : List KeyExpr)
  | distribution (spec : DistributionSpec)
  /-- A nested-loop join, a sort, or the final phase of a top-N. -/
  | gathering
  | other

def outputProperties : PhysicalOperator → DistributionSpec
  | .hashJoin .shuffle eqConditions =>
    hashOr (eqConditions.filterMap fun (left, _) => typedExprToColumnRef left) .any
  | .hashJoin _ _ => .any
  | .hashAggregate groupBy => hashOr (groupBy.filterMap typedExprToColumnRef) .gather
  | .distribution spec => spec
  | .gathering => .gather
  | .other => .any

/-! ### Exchanges -/

inductive OutputPartition (T : Type) where
  | unpartitioned
  | hashPartitioned (partitionExprs : List (SlotRef T))

/-- The columns the input knows; a bare name that has been used is left out. -/
def partitionExprs (childScope : ExprScope T) : List ColumnRef → List String →
    Except String (List (SlotRef T))
  | [], _ => .ok []
  | col :: cols, used =>
    if lower col.column ∈ used then partitionExprs childScope cols used
    else
      match childScope.resolveColumn lower col with
      | .error _ => partitionExprs childScope cols used
      | .ok binding => do
        let expr ← binding.slotRef
        let exprs ← partitionExprs childScope cols (lower col.column :: used)
        .ok (expr :: exprs)

def debugColumns (cols : List ColumnRef) : String :=
  "[" ++ ", ".intercalate (cols.map fun col => "\"" ++ col.column ++ "\"") ++ "]"

def buildOutputPartition (spec : DistributionSpec) (childScope : ExprScope T) :
    Except String (OutputPartition T) :=
  match spec with
  | .gather => .ok .unpartitioned
  | .hashPartitioned cols => do
    let exprs ← partitionExprs lower childScope cols []
    if exprs.isEmpty then
      .error ("no hash partition columns resolved in child scope from " ++ debugColumns cols)
    else .ok (.hashPartitioned exprs)
  | .any => .error "PhysicalDistribution(Any) is not supported in fragment builder"

structure ShuffleInput (T : Type) where
  scope : ExprScope T
  operator : PhysicalOperator

/-- The exchange below the join. An operator that already says what is asked for gets none. -/
def ShuffleInput.exchange (input : ShuffleInput T) (required : DistributionSpec) :
    Option (Except String (OutputPartition T)) :=
  if (outputProperties input.operator).satisfies required then none
  else some (buildOutputPartition lower required input.scope)

/-! ### The join -/

/-- An equality condition over the two inputs, in its own order or swapped. -/
def eqJoinConjunct (left right : ExprScope T) (condition : ColumnRef × ColumnRef) :
    Option (SlotRef T × SlotRef T) :=
  match left.compileColumn lower condition.1, right.compileColumn lower condition.2 with
  | .ok l, .ok r => some (l, r)
  | _, _ =>
    match left.compileColumn lower condition.2, right.compileColumn lower condition.1 with
    | .ok l, .ok r => some (l, r)
    | _, _ => none

def eqJoinConjuncts (left right : ExprScope T) (conditions : List (ColumnRef × ColumnRef)) :
    List (SlotRef T × SlotRef T) :=
  conditions.filterMap (eqJoinConjunct lower left right)

/-- Position by position the two sides of equality conditions of the join. -/
def Aligned (conjuncts : List (SlotRef T × SlotRef T)) (left right : List (SlotRef T)) : Prop :=
  Forall₂ (fun l r => (l, r) ∈ conjuncts) left right

def instanceOf {V : Type} (hash : List V → Nat) (instances : Nat) (row : SlotRef T → V)
    (exprs : List (SlotRef T)) : Nat :=
  hash (exprs.map row) % instances

/-! ### The keys of an input -/

def columnConditions (conditions : List (ColumnRef × ColumnRef)) : List (KeyExpr × KeyExpr) :=
  conditions.map fun (l, r) => (.columnRef l, .columnRef r)

def conditionSides (conditions : List (ColumnRef × ColumnRef)) : List ColumnRef :=
  conditions.flatMap fun (l, r) => [l, r]

def firstOfName : List ColumnRef → List ColumnRef
  | [] => []
  | col :: cols => col :: (firstOfName cols).filter fun other => lower other.column ≠ lower col.column

def ExprScope.knows (scope : ExprScope T) (col : ColumnRef) : Bool :=
  (scope.resolveColumn lower col).toOption.isSome

def keyColumns (scope : ExprScope T) (conditions : List (ColumnRef × ColumnRef)) : List ColumnRef :=
  firstOfName lower ((conditionSides conditions).filter (scope.knows lower))

/-- The keys of the two inputs, taken in order, are joined by conditions. -/
def KeysPaired (left right : ExprScope T) (conditions : List (ColumnRef × ColumnRef)) : Prop :=
  Forall₂ (fun a b => ∃ l r, left.compileColumn lower a = .ok l ∧ right.compileColumn lower b = .ok r ∧
    (l, r) ∈ eqJoinConjuncts lower left right conditions) (keyColumns lower left conditions)
    (keyColumns lower right conditions)

def orient (left : ExprScope T) (condition : ColumnRef × ColumnRef) : ColumnRef × ColumnRef :=
  if left.knows lower condition.1 then condition else condition.swap

/-- Every condition joins a column that only the left input knows with one that only the right
input knows. -/
def Separated (left right : ExprScope T) (conditions : List (ColumnRef × ColumnRef)) : Prop :=
  ∀ condition ∈ conditions, (left.knows lower condition.1 ≠ left.knows lower condition.2) ∧
    ∀ col, col = condition.1 ∨ col = condition.2 → right.knows lower col = !left.knows lower col

/-- A condition repeats a bare name of the left input exactly if it repeats one of the right. -/
def RepeatsTogether (left : ExprScope T) (conditions : List (ColumnRef × ColumnRef)) : Prop :=
  ∀ before condition after, conditions.map (orient lower left) = before ++ condition :: after →
    ((∃ other ∈ before, lower other.1.column = lower condition.1.column) ↔
      ∃ other ∈ before, lower other.2.column = lower condition.2.column)

/-- The exchange expressions of the two inputs are sides of the conditions, position by position. -/
def Colocated (conditions : List (ColumnRef × ColumnRef)) (left right : ShuffleInput T) : Prop :=
  ∃ leftExprs rightExprs,
    left.exchange lower (requiredInputDistribution (columnConditions conditions)) =
      some (.ok (.hashPartitioned leftExprs)) ∧
    right.exchange lower (requiredInputDistribution (columnConditions conditions)) =
      some (.ok (.hashPartitioned rightExprs)) ∧
    Aligned (eqJoinConjuncts lower left.scope right.scope conditions) leftExprs rightExprs

def ShuffleInput.Built (input : ShuffleInput T) (conditions : List (ColumnRef × ColumnRef)) : Prop :=
  ∀ result ∈ input.exchange lower (requiredInputDistribution (columnConditions conditions)),
    ∃ exprs, result = .ok (.hashPartitioned exprs)

variable {lower} {scope : ExprScope T}

theorem not_knows_of_error
    (failed : scope.resolveColumn lower col = .error message) : scope.knows lower col = false := by
  rw [ExprScope.knows, failed]
  rfl

theorem knows_of_ok (found : scope.resolveColumn lower col = .ok binding) : scope.knows lower col = true := by
  rw [ExprScope.knows, found]
  rfl

theorem partitionExprs_keys (cols : List ColumnRef) (used : List String) (exprs : List (SlotRef T))
    (built : partitionExprs lower scope cols used = .ok exprs) :
    Forall₂ (fun col expr => scope.compileColumn lower col = .ok expr)
      ((firstOfName lower (cols.filter (scope.knows lower))).filter fun col => lower col.column ∉ used)
      exprs := by
  induction cols generalizing used exprs with
  | nil =>
    cases built
    exact Forall₂.nil
  | cons col cols ih =>
    rw [partitionExprs] at built
    split at built
    case isTrue known =>
      have rest := ih used exprs built
      cases found : scope.knows lower col with
      | false =>
        rw [filter_cons_of_neg (by simp [found])]
        exact rest
      | true =>
        rw [filter_cons_of_pos found, firstOfName, filter_cons_of_neg (by simp [known]), filter_filter]
        -- A name other than the used ones is other than this one.
        have same : ∀ other : ColumnRef, (decide (lower other.column ∉ used) &&
            decide (lower other.column ≠ lower col.column)) = decide (lower other.column ∉ used) := by
          intro other
          rw [Bool.and_eq_left_iff_imp, decide_eq_true_eq, decide_eq_true_eq]
          exact fun member => (ne_of_mem_of_not_mem known member).symm
        simp only [same]
        exact rest
    case isFalse fresh =>
      cases resolved : scope.resolveColumn lower col with
      | error message =>
        rw [resolved] at built
        rw [filter_cons_of_neg (by simp [not_knows_of_error resolved])]
        exact ih used exprs built
      | ok binding =>
        rw [resolved] at built
        obtain ⟨expr,compiled,built⟩ := bind_ok built
        obtain ⟨rest,builtRest,built⟩ := bind_ok built
        cases built
        have later := ih (lower col.column :: used) rest builtRest
        rw [filter_cons_of_pos (knows_of_ok resolved), firstOfName, filter_cons_of_pos (by simp [fresh]),
          filter_filter]
        refine Forall₂.cons ?_ ?_
        · rw [ExprScope.compileColumn, resolved]
          exact compiled
        · have same : ∀ other : ColumnRef, (decide (lower other.column ∉ used) &&
              decide (lower other.column ≠ lower col.column)) =
                decide (lower other.column ∉ lower col.column :: used) := by
            simp [Bool.and_comm]
          simp only [same]
          exact later

theorem requiredInputDistribution_columns (some_ : conditions ≠ []) :
    requiredInputDistribution (columnConditions conditions) = .hashPartitioned (conditionSides conditions) := by
  have sides : ((columnConditions conditions).flatMap fun (l, r) =>
      (typedExprToColumnRef l).toList ++ (typedExprToColumnRef r).toList) = conditionSides conditions := by
    rw [columnConditions, flatMap_map]
    rfl
  rw [requiredInputDistribution, sides]
  cases conditions with
  | nil => exact absurd rfl some_
  | cons condition conditions => rfl

theorem ShuffleInput.exchange_keys {input : ShuffleInput T} (some_ : conditions ≠ [])
    (built : input.exchange lower (requiredInputDistribution (columnConditions conditions)) =
      some (.ok (.hashPartitioned exprs))) :
    Forall₂ (fun col expr => input.scope.compileColumn lower col = .ok expr)
      (keyColumns lower input.scope conditions) exprs := by
  rw [requiredInputDistribution_columns some_, ShuffleInput.exchange] at built
  split at built
  · cases built
  · obtain ⟨all,loop,rest⟩ := bind_ok (Option.some.inj built)
    split at rest
    case isTrue empty => cases rest
    case isFalse nonempty =>
      cases rest
      have keys := partitionExprs_keys (conditionSides conditions) [] exprs loop
      simpa [keyColumns] using keys

theorem map_eq_of_aligned {V : Type} {leftRow rightRow : SlotRef T → V}
    (agree : ∀ pair ∈ conjuncts, leftRow pair.1 = rightRow pair.2)
    (aligned : Aligned conjuncts left right) : left.map leftRow = right.map rightRow := by
  induction aligned with
  | nil => rfl
  | cons pair _ ih => rw [map_cons, map_cons, agree _ pair, ih]

theorem forall₂_compiled_iff {left right : ExprScope T}
    (compiledLeft : Forall₂ (fun col expr => left.compileColumn lower col = .ok expr) leftCols leftExprs)
    {rightCols : List ColumnRef} {rightExprs : List (SlotRef T)}
    (compiledRight : Forall₂ (fun col expr => right.compileColumn lower col = .ok expr) rightCols rightExprs) :
    (Forall₂ related leftExprs rightExprs ↔
      Forall₂ (fun a b => ∃ l r, left.compileColumn lower a = .ok l ∧
        right.compileColumn lower b = .ok r ∧ related l r) leftCols rightCols) := by
  induction compiledLeft generalizing rightCols rightExprs with
  | nil => cases compiledRight <;> simp
  | cons first _ ih =>
    cases compiledRight with
    | nil => simp
    | cons second rest =>
      rw [forall₂_cons, forall₂_cons, ih rest]
      apply and_congr_left
      intro _
      constructor
      · intro holds
        exact ⟨_,_,first,second,holds⟩
      · rintro ⟨l,r,compiledL,compiledR,holds⟩
        rw [first] at compiledL
        rw [second] at compiledR
        cases compiledL
        cases compiledR
        exact holds

theorem satisfies_hashPartitioned_iff {mine : DistributionSpec} :
    mine.satisfies (.hashPartitioned cols) = true ↔ mine = .hashPartitioned cols := by
  cases mine <;> simp [DistributionSpec.satisfies]

theorem ShuffleInput.exchange_iff {input : ShuffleInput T} (some_ : conditions ≠ [])
    (built : input.Built lower conditions) :
    (∃ exprs, input.exchange lower (requiredInputDistribution (columnConditions conditions)) =
        some (.ok (.hashPartitioned exprs))) ↔
      outputProperties input.operator ≠ .hashPartitioned (conditionSides conditions) := by
  rw [ShuffleInput.Built, requiredInputDistribution_columns some_, ShuffleInput.exchange] at built
  rw [requiredInputDistribution_columns some_, ShuffleInput.exchange]
  by_cases delivered : outputProperties input.operator = .hashPartitioned (conditionSides conditions)
  · rw [if_pos (satisfies_hashPartitioned_iff.mpr delivered)]
    simp [delivered]
  · rw [if_neg (mt satisfies_hashPartitioned_iff.mp delivered)] at built ⊢
    obtain ⟨exprs,made⟩ := built _ rfl
    exact iff_of_true ⟨exprs,congrArg some made⟩ delivered

theorem firstOfName_concat (cols : List ColumnRef) (col : ColumnRef) :
    firstOfName lower (cols ++ [col]) = firstOfName lower cols ++
      if ∃ other ∈ cols, lower other.column = lower col.column then [] else [col] := by
  induction cols with
  | nil => simp [firstOfName]
  | cons first cols ih =>
    rw [cons_append, firstOfName, ih, filter_append, firstOfName, cons_append]
    by_cases later : ∃ other ∈ cols, lower other.column = lower col.column
    · simp [later]
    · by_cases same : lower first.column = lower col.column
      · simp [later, same]
      · simp [later, same, Ne.symm same]

theorem firstOfName_paired (pairs : List (ColumnRef × ColumnRef))
    (together : ∀ before pair after, pairs = before ++ pair :: after →
      ((∃ other ∈ before, lower other.1.column = lower pair.1.column) ↔
        ∃ other ∈ before, lower other.2.column = lower pair.2.column)) :
    Forall₂ (fun a b => (a, b) ∈ pairs) (firstOfName lower (pairs.map Prod.fst))
      (firstOfName lower (pairs.map Prod.snd)) := by
  induction pairs using reverseRecOn with
  | nil => exact .nil
  | append_singleton pairs pair ih =>
    have before := ih fun before other after made => together before other (after ++ [pair]) (by simp [made])
    have now := together pairs pair [] rfl
    simp only [map_append, map_cons, map_nil, firstOfName_concat, mem_map, exists_exists_and_eq_and, now]
    refine rel_append (before.imp fun a b known => mem_append_left _ known) ?_
    split
    · exact .nil
    · exact .cons (mem_append_right _ (mem_singleton_self _)) .nil

theorem knows_sides {left right : ExprScope T} (separated : Separated lower left right conditions) :
    (conditionSides conditions).filter (left.knows lower) = (conditions.map (orient lower left)).map Prod.fst ∧
      (conditionSides conditions).filter (right.knows lower) = (conditions.map (orient lower left)).map Prod.snd := by
  induction conditions with
  | nil => exact ⟨rfl,rfl⟩
  | cons condition conditions ih =>
    rw [Separated, forall_mem_cons] at separated
    obtain ⟨⟨apart,rightKnows⟩,rest⟩ := separated
    obtain ⟨lefts,rights⟩ := ih rest
    rw [show conditionSides (condition :: conditions) = condition.1 :: condition.2 :: conditionSides conditions from rfl]
    simp only [filter_cons, rightKnows condition.1 (.inl rfl), rightKnows condition.2 (.inr rfl), lefts, rights,
      map_cons, orient]
    cases first : left.knows lower condition.1 <;> cases second : left.knows lower condition.2 <;> simp_all

theorem compile_ok_knows (compiled : scope.compileColumn lower col = .ok expr) : scope.knows lower col = true := by
  obtain ⟨binding,found,_⟩ := bind_ok compiled
  exact knows_of_ok found

/-- A condition whose sides compile, the left one over the left input, is one of the join's. -/
theorem mem_eqJoinConjuncts {left right : ExprScope T}
    (listed : condition ∈ conditions) (oriented : orient lower left condition = (a, b))
    (first : left.compileColumn lower a = .ok l) (second : right.compileColumn lower b = .ok r) :
    (l, r) ∈ eqJoinConjuncts lower left right conditions := by
  refine mem_filterMap.mpr ⟨condition,listed,?_⟩
  unfold orient at oriented
  split at oriented
  · cases oriented
    simp [eqJoinConjunct, first, second]
  · rename_i unknown
    cases oriented
    have fails : ∀ slot, left.compileColumn lower condition.1 ≠ .ok slot := fun slot compiled =>
      unknown (compile_ok_knows compiled)
    unfold eqJoinConjunct
    split
    · exact absurd ‹_› (fails _)
    · simp_all

theorem forall₂_through {related : SlotRef T → SlotRef T → Prop} {left right : ExprScope T}
    (paired : Forall₂ joined leftCols rightCols)
    (compiledLeft : Forall₂ (fun col expr => left.compileColumn lower col = .ok expr) leftCols leftExprs)
    (compiledRight : Forall₂ (fun col expr => right.compileColumn lower col = .ok expr) rightCols rightExprs)
    (each : ∀ a b l r, joined a b → left.compileColumn lower a = .ok l → right.compileColumn lower b = .ok r →
      related l r) : Forall₂ related leftExprs rightExprs := by
  induction paired generalizing leftExprs rightExprs with
  | nil =>
    cases compiledLeft
    cases compiledRight
    exact .nil
  | cons pair _ ih =>
    obtain _ | ⟨first,rest⟩ := compiledLeft
    obtain _ | ⟨second,rest'⟩ := compiledRight
    exact .cons (each _ _ _ _ pair first second) (ih rest rest')

end

/-! ### A column in two conditions -/

def tableScope (name : String) (tupleId : Int) (columns : List String) : ExprScope Unit where
  qualified := fun (qualifier, column) =>
    if qualifier = name ∧ column ∈ columns then some ⟨tupleId, columns.idxOf column, .ok ()⟩ else none
  unqualified := fun column =>
    if column ∈ columns then some ⟨tupleId, columns.idxOf column, .ok ()⟩ else none

def scanInput (name : String) (tupleId : Int) (columns : List String) : ShuffleInput Unit :=
  ⟨tableScope name tupleId columns, .other⟩

def twoKeys : List (ColumnRef × ColumnRef) :=
  [(⟨some "a", "x"⟩, ⟨some "b", "y"⟩), (⟨some "a", "y"⟩, ⟨some "b", "x"⟩)]

def repeatedKey : List (ColumnRef × ColumnRef) :=
  [(⟨some "a", "x"⟩, ⟨some "b", "y"⟩), (⟨some "a", "x"⟩, ⟨some "b", "z"⟩)]

end NovaRocks.Codegen
