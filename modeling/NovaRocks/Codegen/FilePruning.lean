import NovaRocks.Store.LittleEndian

/-!
Pruning of Iceberg data files by the bounds and partition values their manifests hold.
A conjunct that compares a column with a literal is compiled to a list of expression
nodes; if the node after the root is the column itself and the next one a literal, it
becomes a min/max predicate. The bounds of the column are then decoded by the kind of
the literal, whatever the column's type is. Strings are lists of bytes; a literal of
SQL type DATETIME is the cast of a string and carries its microseconds.
-/
namespace NovaRocks.Codegen.Pruning
open NovaRocks.Store

inductive DataType where
  | boolean
  | int32
  | int64
  | float32
  | float64
  | decimal128 (precision scale : Nat)
  | date32
  | timestamp
  | utf8
  deriving DecidableEq

/-- The value of a cell: the integer types, dates (days), timestamps (microseconds) and decimals
(unscaled) hold an integer, floats their bits. -/
inductive Cell where
  | null
  | bool (value : Bool)
  | int (value : Int)
  | float32 (bits : Nat)
  | float64 (bits : Nat)
  | text (bytes : List Nat)
  deriving DecidableEq

inductive LiteralValue where
  | bool (value : Bool)
  | int (value : Int)
  | decimal (unscaled : Int) (precision scale : Nat)
  | string (bytes : List Nat)
  | date (days : Int)
  | datetime (micros : Int)
  deriving DecidableEq

inductive LiteralType where
  | bool
  | int
  | decimal
  | string
  | date
  | datetime
  deriving DecidableEq

def LiteralValue.type : LiteralValue → LiteralType
  | .bool _ => .bool
  | .int _ => .int
  | .decimal .. => .decimal
  | .string _ => .string
  | .date _ => .date
  | .datetime _ => .datetime

def LiteralValue.dataType : LiteralValue → DataType
  | .bool _ => .boolean
  | .int _ => .int64
  | .decimal _ precision scale => .decimal128 precision scale
  | .string _ => .utf8
  | .date _ => .date32
  | .datetime _ => .timestamp

def LiteralValue.cell : LiteralValue → Cell
  | .bool value => .bool value
  | .int value => .int value
  | .decimal unscaled _ _ => .int unscaled
  | .string bytes => .text bytes
  | .date days => .int days
  | .datetime micros => .int micros

inductive BinOp where
  | eq
  | ne
  | lt
  | le
  | gt
  | ge
  | eqForNull
  deriving DecidableEq

structure Column where
  name : String
  type : DataType
  deriving DecidableEq

structure Conjunct where
  column : Column
  op : BinOp
  literal : LiteralValue
  columnFirst : Bool

/-! ### Compiling a comparison -/

def widerType (a b : DataType) : DataType :=
  if a = b then a
  else
    match a, b with
    | .decimal128 p1 s1, .decimal128 p2 s2 =>
      .decimal128 (min (max (p1 - s1) (p2 - s2) + max s1 s2) 38) (max s1 s2)
    | .decimal128 _ _, .float64 => .float64
    | .decimal128 _ _, .float32 => .float64
    | .float64, .decimal128 _ _ => .float64
    | .float32, .decimal128 _ _ => .float64
    | .decimal128 p s, _ => .decimal128 p s
    | _, .decimal128 p s => .decimal128 p s
    | .float64, _ => .float64
    | _, .float64 => .float64
    | .float32, _ => .float64
    | _, .float32 => .float64
    | .int64, _ => .int64
    | _, .int64 => .int64
    | .int32, _ => .int64
    | _, .int32 => .int64
    | .utf8, _ => .utf8
    | _, .utf8 => .utf8
    | a, _ => a

def needsComparisonCast : DataType → DataType → Bool
  | .int64, .decimal128 _ _ => true
  | .int32, .decimal128 _ _ => true
  | .float64, .decimal128 _ _ => true
  | .float32, .decimal128 _ _ => true
  | .decimal128 _ _, .float64 => true
  | .int64, .float64 => true
  | .int32, .float64 => true
  | _, _ => false

inductive ExprNode where
  | binaryPred (op : BinOp)
  | castExpr (target : DataType)
  | slotRef (column : Column)
  | literal (value : LiteralValue)

inductive Operand where
  | column (column : Column)
  | literal (value : LiteralValue)

def Operand.dataType : Operand → DataType
  | .column named => named.type
  | .literal value => value.dataType

/-- A DATETIME literal is a cast of its text. -/
def Operand.nodes : Operand → List ExprNode
  | .column named => [.slotRef named]
  | .literal (.datetime micros) => [.castExpr .timestamp, .literal (.datetime micros)]
  | .literal value => [.literal value]

def castOperand (target : DataType) (operand : Operand) : List ExprNode :=
  if needsComparisonCast operand.dataType target then .castExpr target :: operand.nodes
  else operand.nodes

def compileTypedBinaryOp (op : BinOp) (left right : Operand) : List ExprNode :=
  let compareType := widerType left.dataType right.dataType
  .binaryPred op :: (castOperand compareType left ++ castOperand compareType right)

def Conjunct.operands (conjunct : Conjunct) : Operand × Operand :=
  if conjunct.columnFirst then (.column conjunct.column, .literal conjunct.literal)
  else (.literal conjunct.literal, .column conjunct.column)

def Conjunct.compile (conjunct : Conjunct) : List ExprNode :=
  compileTypedBinaryOp conjunct.op conjunct.operands.1 conjunct.operands.2

/-! ### Min/max predicates -/

inductive MinMaxPredicateValue where
  | boolean (value : Bool)
  | int64 (value : Int)
  | byteArray (bytes : List Nat)
  | date32 (days : Int)
  | decimal128 (value : Int) (precision scale : Nat)

inductive MinMaxPredicateOp where
  | le
  | ge
  | lt
  | gt
  | eq

structure MinMaxPredicate where
  op : MinMaxPredicateOp
  column : String
  value : MinMaxPredicateValue

def MinMaxPredicateValue.asBool : MinMaxPredicateValue → Option Bool
  | .boolean value => some value
  | _ => none

def MinMaxPredicateValue.asI64 : MinMaxPredicateValue → Option Int
  | .int64 value => some value
  | .date32 days => some days
  | _ => none

def MinMaxPredicateValue.asBytes : MinMaxPredicateValue → Option (List Nat)
  | .byteArray bytes => some bytes
  | _ => none

def predicateOp : BinOp → Option MinMaxPredicateOp
  | .le => some .le
  | .ge => some .ge
  | .lt => some .lt
  | .gt => some .gt
  | .eq => some .eq
  | _ => none

/-- The literals have the types the compiler gives them: BIGINT, VARCHAR, DATE and so on. -/
def extractLiteralValue : LiteralValue → Option MinMaxPredicateValue
  | .bool value => some (.boolean value)
  | .int value => some (.int64 value)
  | .decimal unscaled precision scale => some (.decimal128 unscaled precision scale)
  | .string bytes => some (.byteArray bytes)
  | .date days => some (.date32 days)
  | .datetime _ => none

def parseMinMaxConjunct : List ExprNode → Option MinMaxPredicate
  | .binaryPred op :: .slotRef column :: .literal value :: _ =>
    match predicateOp op, extractLiteralValue value with
    | some op, some value => some ⟨op, column.name, value⟩
    | _, _ => none
  | _ => none

/-! ### What the manifests hold -/

structure IcebergColumnStats where
  lowerBound : Option (List Nat)
  upperBound : Option (List Nat)

inductive IcebergPartitionValue where
  | boolean (value : Bool)
  | int32 (value : Int)
  | int64 (value : Int)
  | float (bits : Nat)
  | double (bits : Nat)
  | string (bytes : List Nat)

structure IcebergPartitionFieldValue where
  sourceColumn : String
  identity : Bool
  value : Option IcebergPartitionValue

structure S3FileInfo where
  columnStats : Option (List (String × IcebergColumnStats))
  partitionValues : List IcebergPartitionFieldValue

/-- A decimal, which Iceberg holds in 128 bits, has no partition value here. -/
def icebergPartitionValueFromLiteral : DataType → Cell → Option IcebergPartitionValue
  | .boolean, .bool value => some (.boolean value)
  | .int32, .int value => some (.int32 value)
  | .date32, .int value => some (.int32 value)
  | .int64, .int value => some (.int64 value)
  | .timestamp, .int value => some (.int64 value)
  | .float32, .float32 bits => some (.float bits)
  | .float64, .float64 bits => some (.double bits)
  | .utf8, .text bytes => some (.string bytes)
  | _, _ => none

/-! ### May the file hold a row that satisfies the predicates? -/

def eqIgnoreAsciiCase (a b : String) : Bool :=
  a.toLower == b.toLower

def bytesLe : List Nat → List Nat → Bool
  | [], _ => true
  | _ :: _, [] => false
  | a :: as, b :: bs => decide (a < b) || (decide (a = b) && bytesLe as bs)

def i64Le (a b : Int) : Bool :=
  decide (a ≤ b)

def rangeMaySatisfy {κ : Type} (le : κ → κ → Bool) (lower upper : κ) (op : MinMaxPredicateOp)
    (value : κ) : Bool :=
  match op with
  | .le => le lower value
  | .ge => le value upper
  | .lt => !le value lower
  | .gt => !le upper value
  | .eq => le lower value && le value upper

def rangeMaySatisfyI64 (lower upper : Int) (op : MinMaxPredicateOp) (value : Int) : Bool :=
  rangeMaySatisfy i64Le lower upper op value

def rangeMaySatisfyBytes (lower upper : List Nat) (op : MinMaxPredicateOp) (value : List Nat) : Bool :=
  rangeMaySatisfy bytesLe lower upper op value

def boolInt (value : Bool) : Int :=
  if value then 1 else 0

def decodeBoolBound : List Nat → Option Bool
  | [0] => some false
  | [1] => some true
  | _ => none

def decodeI64Bound (bytes : List Nat) : Option Int :=
  match bytes.length with
  | 1 => some (fromLe bytes)
  | 4 => some (ofSignedBytes bytes)
  | 8 => some (ofSignedBytes bytes)
  | _ => none

def statsMaySatisfy {κ : Type} (decode : List Nat → Option κ)
    (range : κ → κ → MinMaxPredicateOp → κ → Bool) (stats : IcebergColumnStats)
    (op : MinMaxPredicateOp) (value : κ) : Bool :=
  match stats.lowerBound.bind decode, stats.upperBound.bind decode with
  | some lower, some upper => range lower upper op value
  | _, _ => true

section
variable (stats : IcebergColumnStats)

def statsMaySatisfyBool (op : MinMaxPredicateOp) (value : Bool) : Bool :=
  statsMaySatisfy (fun bytes => (decodeBoolBound bytes).map boolInt) rangeMaySatisfyI64 stats op
    (boolInt value)

def statsMaySatisfyI64 (op : MinMaxPredicateOp) (value : Int) : Bool :=
  statsMaySatisfy decodeI64Bound rangeMaySatisfyI64 stats op value

def statsMaySatisfyBytes (op : MinMaxPredicateOp) (value : List Nat) : Bool :=
  statsMaySatisfy some rangeMaySatisfyBytes stats op value

def statsMaySatisfyPredicate (predicate : MinMaxPredicate) : Bool :=
  match predicate.value.asBool with
  | some value => statsMaySatisfyBool stats predicate.op value
  | none =>
    match predicate.value.asI64 with
    | some value => statsMaySatisfyI64 stats predicate.op value
    | none =>
      match predicate.value.asBytes with
      | some value => statsMaySatisfyBytes stats predicate.op value
      | none => true

end

/-- A float partition value is compared with float literals only. -/
def partitionValueMaySatisfyPredicate (value : IcebergPartitionValue) (predicate : MinMaxPredicate) :
    Option Bool :=
  match value with
  | .boolean point => predicate.value.asBool.map fun value =>
    rangeMaySatisfyI64 (boolInt point) (boolInt point) predicate.op (boolInt value)
  | .int32 point => predicate.value.asI64.map (rangeMaySatisfyI64 point point predicate.op)
  | .int64 point => predicate.value.asI64.map (rangeMaySatisfyI64 point point predicate.op)
  | .float _ => none
  | .double _ => none
  | .string point => predicate.value.asBytes.map (rangeMaySatisfyBytes point point predicate.op)

/-- A missing partition value is taken for NULL. -/
def partitionMaySatisfyPredicate (file : S3FileInfo) (predicate : MinMaxPredicate) : Option Bool :=
  match file.partitionValues.find? fun field =>
    field.identity && eqIgnoreAsciiCase field.sourceColumn predicate.column with
  | none => none
  | some field =>
    match field.value with
    | none => some false
    | some value => partitionValueMaySatisfyPredicate value predicate

def findColumnStats (columnStats : List (String × IcebergColumnStats)) (column : String) :
    Option IcebergColumnStats :=
  match columnStats.find? fun entry => entry.1 == column with
  | some entry => some entry.2
  | none => (columnStats.find? fun entry => eqIgnoreAsciiCase entry.1 column).map Prod.snd

def predicateMaySatisfy (file : S3FileInfo) (predicate : MinMaxPredicate) : Bool :=
  match partitionMaySatisfyPredicate file predicate with
  | some maySatisfy => maySatisfy
  | none =>
    match file.columnStats with
    | none => true
    | some columnStats =>
      match findColumnStats columnStats predicate.column with
      | none => true
      | some stats => statsMaySatisfyPredicate stats predicate

def fileMaySatisfyMinMax (file : S3FileInfo) (predicates : List MinMaxPredicate) : Bool :=
  predicates.all (predicateMaySatisfy file)

def scanFileMinMaxPredicates (conjuncts : List Conjunct) : List MinMaxPredicate :=
  conjuncts.filterMap fun conjunct => parseMinMaxConjunct conjunct.compile

end NovaRocks.Codegen.Pruning
