import NovaRocks.Relational.Kleene

/-!
Typed expressions as the analyzer hands them to the planner, the names they
mention, and their value on one row. A name is looked up in lower case, with
its qualifier when it has one. An aggregate or window call that stands in a
scalar position is not computed there: the operator below has published its
result as a column under the display name of the call.
-/
namespace NovaRocks

/-- `to_lowercase`, which every column and table name goes through. -/
class CaseFolding where
  lower : String → String

export CaseFolding (lower)

inductive DataType where
  | null
  | boolean
  | int64
  | float64
  | utf8
  | decimal (precision scale : Nat)
  | other (name : String)
  deriving DecidableEq

inductive LiteralValue where
  | null
  | bool (b : Bool)
  | int (i : Int)
  | float (bits : Nat)
  | decimal (text : String)
  | string (s : String)
  deriving DecidableEq

inductive BinOp where
  | add | sub | mul | div | mod
  | eq | ne | lt | le | gt | ge | eqForNull
  | and | or
  deriving DecidableEq

inductive UnOp where
  | not | negate | bitwiseNot
  deriving DecidableEq

inductive WindowFrameType where
  | rows | range
  deriving DecidableEq

inductive WindowBound where
  | unboundedPreceding
  | preceding (n : Int)
  | currentRow
  | following (n : Int)
  | unboundedFollowing
  deriving DecidableEq

structure WindowFrame where
  frameType : WindowFrameType
  start : WindowBound
  stop : WindowBound
  deriving DecidableEq

inductive SubqueryKind where
  | scalar
  | exists (negated : Bool)
  | inSubquery (negated : Bool)
  deriving DecidableEq

mutual
inductive ExprKind where
  | columnRef (qualifier : Option String) (column : String)
  | literal (value : LiteralValue)
  | binaryOp (left : TypedExpr) (op : BinOp) (right : TypedExpr)
  | unaryOp (op : UnOp) (expr : TypedExpr)
  | functionCall (name : String) (args : List TypedExpr) (distinct : Bool)
  | aggregateCall (name : String) (args : List TypedExpr) (distinct : Bool)
      (orderBy : List SortItem)
  | cast (expr : TypedExpr) (target : DataType)
  | isNull (expr : TypedExpr) (negated : Bool)
  | inList (expr : TypedExpr) (list : List TypedExpr) (negated : Bool)
  | between (expr low high : TypedExpr) (negated : Bool)
  | like (expr pattern : TypedExpr) (negated : Bool)
  | case (operand : Option TypedExpr) (whenThen : List (TypedExpr × TypedExpr))
      (elseExpr : Option TypedExpr)
  | isTruthValue (expr : TypedExpr) (value negated : Bool)
  | nested (inner : TypedExpr)
  | windowCall (name : String) (args : List TypedExpr) (distinct : Bool)
      (partitionBy : List TypedExpr) (orderBy : List SortItem)
      (windowFrame : Option WindowFrame)
  | subqueryPlaceholder (id : Nat) (kind : SubqueryKind) (dataType : DataType)
structure TypedExpr where
  kind : ExprKind
  dataType : DataType
  nullable : Bool
structure SortItem where
  expr : TypedExpr
  asc : Bool
  nullsFirst : Bool
end

variable [CaseFolding]

/-- A column reference in folded case. -/
abbrev QualifiedRef := Option String × String

def foldRef (qualifier : Option String) (column : String) : QualifiedRef :=
  (qualifier.map lower, lower column)

mutual
/-- The references in traversal order. With a `label`, a call that is read as
a column counts as that column; without one the traversal enters its operands. -/
def refsWith (label : Option (ExprKind → String)) : TypedExpr → List QualifiedRef
  | ⟨.columnRef q c, _, _⟩ => [foldRef q c]
  | ⟨.literal _, _, _⟩ => []
  | ⟨.binaryOp l _ r, _, _⟩ => refsWith label l ++ refsWith label r
  | ⟨.unaryOp _ e, _, _⟩ => refsWith label e
  | ⟨.functionCall _ args _, _, _⟩ => refsWithList label args
  | ⟨.aggregateCall name args distinct orderBy, _, _⟩ =>
    match label with
    | none => refsWithList label args ++ refsWithSort label orderBy
    | some display => [(none, lower (display (.aggregateCall name args distinct orderBy)))]
  | ⟨.cast e _, _, _⟩ => refsWith label e
  | ⟨.isNull e _, _, _⟩ => refsWith label e
  | ⟨.inList e list _, _, _⟩ => refsWith label e ++ refsWithList label list
  | ⟨.between e low high _, _, _⟩ => refsWith label e ++ refsWith label low ++ refsWith label high
  | ⟨.like e pattern _, _, _⟩ => refsWith label e ++ refsWith label pattern
  | ⟨.case operand whenThen elseExpr, _, _⟩ =>
    refsWithOption label operand ++ refsWithBranches label whenThen ++
      refsWithOption label elseExpr
  | ⟨.isTruthValue e _ _, _, _⟩ => refsWith label e
  | ⟨.nested e, _, _⟩ => refsWith label e
  | ⟨.windowCall name args distinct partitionBy orderBy frame, _, _⟩ =>
    match label with
    | none =>
      refsWithList label args ++ refsWithList label partitionBy ++ refsWithSort label orderBy
    | some display =>
      [(none, lower (display (.windowCall name args distinct partitionBy orderBy frame)))]
  | ⟨.subqueryPlaceholder _ _ _, _, _⟩ => []
def refsWithList (label : Option (ExprKind → String)) : List TypedExpr → List QualifiedRef
  | [] => []
  | e :: rest => refsWith label e ++ refsWithList label rest
def refsWithSort (label : Option (ExprKind → String)) : List SortItem → List QualifiedRef
  | [] => []
  | ⟨e, _, _⟩ :: rest => refsWith label e ++ refsWithSort label rest
def refsWithOption (label : Option (ExprKind → String)) : Option TypedExpr → List QualifiedRef
  | none => []
  | some e => refsWith label e
def refsWithBranches (label : Option (ExprKind → String)) :
    List (TypedExpr × TypedExpr) → List QualifiedRef
  | [] => []
  | (w, t) :: rest => refsWith label w ++ refsWith label t ++ refsWithBranches label rest
end

mutual
/-- The subqueries an expression takes the value of; a call that is read as a
column takes none. -/
def placeholdersIn : TypedExpr → List Nat
  | ⟨.subqueryPlaceholder id _ _, _, _⟩ => [id]
  | ⟨.binaryOp l _ r, _, _⟩ => placeholdersIn l ++ placeholdersIn r
  | ⟨.unaryOp _ e, _, _⟩ => placeholdersIn e
  | ⟨.functionCall _ args _, _, _⟩ => placeholdersInList args
  | ⟨.cast e _, _, _⟩ => placeholdersIn e
  | ⟨.isNull e _, _, _⟩ => placeholdersIn e
  | ⟨.inList e list _, _, _⟩ => placeholdersIn e ++ placeholdersInList list
  | ⟨.between e low high _, _, _⟩ => placeholdersIn e ++ placeholdersIn low ++ placeholdersIn high
  | ⟨.like e pattern _, _, _⟩ => placeholdersIn e ++ placeholdersIn pattern
  | ⟨.case operand whenThen elseExpr, _, _⟩ =>
    placeholdersInOption operand ++ placeholdersInBranches whenThen ++
      placeholdersInOption elseExpr
  | ⟨.isTruthValue e _ _, _, _⟩ => placeholdersIn e
  | ⟨.nested e, _, _⟩ => placeholdersIn e
  | ⟨.columnRef _ _, _, _⟩ | ⟨.literal _, _, _⟩ | ⟨.aggregateCall _ _ _ _, _, _⟩
  | ⟨.windowCall _ _ _ _ _ _, _, _⟩ => []
def placeholdersInList : List TypedExpr → List Nat
  | [] => []
  | e :: rest => placeholdersIn e ++ placeholdersInList rest
def placeholdersInOption : Option TypedExpr → List Nat
  | none => []
  | some e => placeholdersIn e
def placeholdersInBranches : List (TypedExpr × TypedExpr) → List Nat
  | [] => []
  | (w, t) :: rest => placeholdersIn w ++ placeholdersIn t ++ placeholdersInBranches rest
end

def collectQualifiedColumnRefs (e : TypedExpr) : List QualifiedRef :=
  refsWith none e

/-- Bare names. The source folds them at each use; here they come folded. -/
def collectColumnRefs (e : TypedExpr) : List String :=
  (collectQualifiedColumnRefs e).map Prod.snd

namespace TypedExpr

def column (qualifier : Option String) (name : String) : TypedExpr :=
  ⟨.columnRef qualifier name, .int64, true⟩

def int (n : Int) : TypedExpr :=
  ⟨.literal (.int n), .int64, false⟩

def test (left : TypedExpr) (op : BinOp) (right : TypedExpr) : TypedExpr :=
  ⟨.binaryOp left op right, .boolean, true⟩

end TypedExpr

end NovaRocks
