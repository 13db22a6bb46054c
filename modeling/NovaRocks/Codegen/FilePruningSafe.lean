import Mathlib.Data.List.Pairwise
import NovaRocks.Codegen.FilePruning

/-!
Which pairs of a column type and a literal type a data file may safely be pruned by.
A file is described by bounds and partition values that are right for its rows; the
engine converts both sides of a comparison to their wider type. The conversions
themselves are a parameter, with the facts about them that the pairs turn on.
-/
namespace NovaRocks.Codegen.Pruning
open NovaRocks.Store
open MinMaxPredicateValue (asBool asBytes asI64)

def zeroText : List Nat :=
  [48]

structure Conversions where
  convert : DataType → DataType → Cell → Option Cell
  float32Le : Nat → Nat → Bool
  float64Le : Nat → Nat → Bool
  same : ∀ type cell, convert type type cell = some cell
  boolean_int64 : ∀ value, convert .boolean .int64 (.bool value) = some (.int (boolInt value))
  int32_int64 : ∀ value, convert .int32 .int64 (.int value) = some (.int value)
  date32_int64 : ∀ days, convert .date32 .int64 (.int days) = some (.int days)
  timestamp_int64 : ∀ micros, convert .timestamp .int64 (.int micros) = some (.int micros)
  date32_timestamp : ∀ days, convert .date32 .timestamp (.int days) = some (.int (days * 86400000000))
  /-- There is no conversion of a date to a boolean or a decimal. -/
  date32_boolean : ∀ days, convert .date32 .boolean (.int days) = none
  date32_decimal : ∀ days precision scale,
    convert .date32 (.decimal128 precision scale) (.int days) = none
  utf8_int64 : convert .utf8 .int64 (.text zeroText) = some (.int 0)
  utf8_float64 : convert .utf8 .float64 (.text zeroText) = some (.float64 0)
  utf8_decimal : ∀ precision scale,
    convert .utf8 (.decimal128 precision scale) (.text zeroText) = some (.int 0)
  boolean_decimal : ∀ precision scale,
    convert .boolean (.decimal128 precision scale) (.bool false) = some (.int 0)
  decimal_decimal : ∀ precision scale precision' scale',
    convert (.decimal128 precision scale) (.decimal128 precision' scale') (.int 0) = some (.int 0)
  float32_float64 : convert .float32 .float64 (.float32 0) = some (.float64 0)
  float32Le_zero : float32Le 0 0 = true
  float64Le_zero : float64Le 0 0 = true
  /-- As a number the first day is not below zero, and not zero. -/
  date32_float64 : ∃ bits, convert .date32 .float64 (.int 0) = some (.float64 bits) ∧
    float64Le bits 0 = false
  /-- The texts of truth values, of the first day and of its midnight start with a digit or letter. -/
  boolean_utf8 : ∀ value, ∃ bytes, convert .boolean .utf8 (.bool value) = some (.text bytes) ∧
    bytesLe zeroText bytes = true
  date32_utf8 : ∃ bytes, convert .date32 .utf8 (.int 0) = some (.text bytes) ∧
    bytesLe zeroText bytes = true
  timestamp_utf8 : ∃ bytes, convert .timestamp .utf8 (.int 0) = some (.text bytes) ∧
    bytesLe zeroText bytes = true

section
variable (conversions : Conversions)

def Conversions.cellLe : Cell → Cell → Bool
  | .bool a, .bool b => !a || b
  | .int a, .int b => i64Le a b
  | .float32 a, .float32 b => conversions.float32Le a b
  | .float64 a, .float64 b => conversions.float64Le a b
  | .text a, .text b => bytesLe a b
  | _, _ => false

def comparisonHolds {κ : Type} (le : κ → κ → Bool) (op : BinOp) (a b : κ) : Bool :=
  match op with
  | .eq => le a b && le b a
  | .ne => !(le a b && le b a)
  | .lt => !le b a
  | .le => le a b
  | .gt => !le a b
  | .ge => le b a
  | .eqForNull => le a b && le b a

/-- NULL satisfies no comparison with a literal, nor does what cannot be converted. -/
def Conversions.compare (op : BinOp) (left right : DataType × Cell) : Bool :=
  if left.2 = .null ∨ right.2 = .null then false
  else
    let compareType := widerType left.1 right.1
    match conversions.convert left.1 compareType left.2, conversions.convert right.1 compareType right.2 with
    | some a, some b => comparisonHolds conversions.cellLe op a b
    | _, _ => false

def Conjunct.satisfied (conjunct : Conjunct) (row : String → Cell) : Bool :=
  let column := (conjunct.column.type, row conjunct.column.name)
  let literal := (conjunct.literal.dataType, conjunct.literal.cell)
  if conjunct.columnFirst then conversions.compare conjunct.op column literal
  else conversions.compare conjunct.op literal column

end

/-! ### Files that are described rightly -/

def decimalBytes (unscaled : Int) : List Nat :=
  let count := ((List.range 16).find? fun less =>
    decide (-((256 ^ (less + 1) / 2 : Nat) : Int) ≤ unscaled ∧
      unscaled < (256 ^ (less + 1) / 2 : Nat))).getD 16 + 1
  (signedBytes count unscaled).reverse

/-- Iceberg's single-value binary encoding. -/
def encode : DataType → Cell → List Nat
  | .boolean, .bool value => [if value then 1 else 0]
  | .int32, .int value => signedBytes 4 value
  | .date32, .int value => signedBytes 4 value
  | .int64, .int value => signedBytes 8 value
  | .timestamp, .int value => signedBytes 8 value
  | .float32, .float32 bits => leBytes 4 bits
  | .float64, .float64 bits => leBytes 8 bits
  | .decimal128 _ _, .int unscaled => decimalBytes unscaled
  | .utf8, .text bytes => bytes
  | _, _ => []

def Holds : DataType → Cell → Prop
  | .boolean, .bool _ => True
  | .int32, .int value => -(256 ^ 4 / 2 : Nat) ≤ value ∧ value < (256 ^ 4 / 2 : Nat)
  | .date32, .int value => -(256 ^ 4 / 2 : Nat) ≤ value ∧ value < (256 ^ 4 / 2 : Nat)
  | .int64, .int value => -(256 ^ 8 / 2 : Nat) ≤ value ∧ value < (256 ^ 8 / 2 : Nat)
  | .timestamp, .int value => -(256 ^ 8 / 2 : Nat) ≤ value ∧ value < (256 ^ 8 / 2 : Nat)
  | .float32, .float32 bits => bits < 256 ^ 4
  | .float64, .float64 bits => bits < 256 ^ 8
  | .decimal128 precision _, .int unscaled => unscaled.natAbs < 10 ^ precision
  | .utf8, .text bytes => ∀ byte ∈ bytes, byte < 256
  | _, _ => False

structure Table where
  columns : List Column
  distinct : columns.Pairwise fun a b => eqIgnoreAsciiCase a.name b.name = false

structure DataFile where
  info : S3FileInfo
  rows : List (String → Cell)

/-- The bound is the encoding of a value on one side of every value of the column. -/
def BoundRight (column : Column) (rows : List (String → Cell)) (beside : Cell → Cell → Bool)
    (bound : Option (List Nat)) : Prop :=
  ∀ bytes, bound = some bytes → ∃ cell, Holds column.type cell ∧ bytes = encode column.type cell ∧
    ∀ row ∈ rows, row column.name ≠ .null → beside cell (row column.name) = true

structure DataFile.Right (conversions : Conversions) (table : Table) (file : DataFile) : Prop where
  typed : ∀ row ∈ file.rows, ∀ column ∈ table.columns,
    row column.name = .null ∨ Holds column.type (row column.name)
  stats : ∀ columnStats, file.info.columnStats = some columnStats → ∀ entry ∈ columnStats,
    ∃ column ∈ table.columns, column.name = entry.1 ∧
      BoundRight column file.rows conversions.cellLe entry.2.lowerBound ∧
      BoundRight column file.rows (fun cell row => conversions.cellLe row cell) entry.2.upperBound
  /-- Every row has the value of an identity partition field in the field's source column. -/
  partitions : ∀ field ∈ file.info.partitionValues, field.identity = true →
    ∃ column ∈ table.columns, column.name = field.sourceColumn ∧ ∃ cell,
      (∀ row ∈ file.rows, row column.name = cell) ∧
      field.value = icebergPartitionValueFromLiteral column.type cell

/-! ### The range tests -/

theorem bytesLe_iff (a b : List Nat) : bytesLe a b = true ↔ @LE.le _ List.instLE a b := by
  induction a generalizing b with
  | nil => simp [bytesLe]
  | cons x xs ih => cases b <;> simp [bytesLe, ih, List.cons_le_cons_iff]

theorem bytesLe_trans (a b c : List Nat) (first : bytesLe a b = true) (second : bytesLe b c = true) :
    bytesLe a c = true := by
  rw [bytesLe_iff] at *
  exact List.le_trans first second

theorem i64Le_trans (a b c : Int) (first : i64Le a b = true) (second : i64Le b c = true) :
    i64Le a c = true := by
  simp only [i64Le, decide_eq_true_eq] at *
  omega

section
variable {le : κ → κ → Bool}

theorem range_of_point {lower point upper value : κ}
    (trans : ∀ a b c, le a b = true → le b c = true → le a c = true) (low : le lower point = true)
    (high : le point upper = true) (passes : rangeMaySatisfy le point point op value = true) :
    rangeMaySatisfy le lower upper op value = true := by
  cases op with
  | le => exact trans _ _ _ low passes
  | ge => exact trans _ _ _ passes high
  | lt =>
    simp only [rangeMaySatisfy, Bool.not_eq_true', Bool.eq_false_iff] at passes ⊢
    exact fun below => passes (trans _ _ _ below low)
  | gt =>
    simp only [rangeMaySatisfy, Bool.not_eq_true', Bool.eq_false_iff] at passes ⊢
    exact fun below => passes (trans _ _ _ high below)
  | eq =>
    simp only [rangeMaySatisfy, Bool.and_eq_true] at passes ⊢
    exact ⟨trans _ _ _ low passes.1,trans _ _ _ passes.2 high⟩

theorem comparison_of_point (parsed : predicateOp op = some test)
    (a b : κ) : comparisonHolds le op a b = rangeMaySatisfy le a a test b := by
  cases op with
  | eq | lt | le | gt | ge => cases parsed; rfl
  | ne | eqForNull => cases parsed

end

/-! ### What is parsed -/

theorem parse_some (parsed : parseMinMaxConjunct nodes = some predicate) :
    ∃ op column value rest, nodes = .binaryPred op :: .slotRef column :: .literal value :: rest ∧
      predicate.column = column.name ∧ predicateOp op = some predicate.op ∧
      extractLiteralValue value = some predicate.value := by
  unfold parseMinMaxConjunct at parsed
  split at parsed
  case h_1 op column value rest =>
    split at parsed
    case h_1 test extracted found taken =>
      cases parsed
      exact ⟨op,column,value,rest,rfl,rfl,found,taken⟩
    case h_2 => cases parsed
  case h_2 => cases parsed

theorem castOperand_slotRef {rest after : List ExprNode}
    (starts : castOperand target operand ++ after = .slotRef column :: rest) :
    operand = .column column ∧ needsComparisonCast column.type target = false ∧ after = rest := by
  unfold castOperand at starts
  split at starts
  case isTrue => cases starts
  case isFalse bare =>
    cases operand with
    | column named =>
      cases starts
      exact ⟨rfl,Bool.eq_false_iff.mpr bare,rfl⟩
    | literal value => cases value <;> cases starts

theorem castOperand_literal (starts : castOperand target operand = .literal value :: rest) :
    operand = .literal value ∧ needsComparisonCast value.dataType target = false := by
  unfold castOperand at starts
  split at starts
  case isTrue => cases starts
  case isFalse bare =>
    cases operand with
    | column named => cases starts
    | literal given => cases given <;> cases starts <;> exact ⟨rfl,Bool.eq_false_iff.mpr bare⟩

theorem parsed_conjunct {conjunct : Conjunct}
    (parsed : parseMinMaxConjunct conjunct.compile = some predicate) :
    conjunct.columnFirst = true ∧ predicate.column = conjunct.column.name ∧
      predicateOp conjunct.op = some predicate.op ∧
      extractLiteralValue conjunct.literal = some predicate.value ∧
      needsComparisonCast conjunct.column.type
        (widerType conjunct.column.type conjunct.literal.dataType) = false ∧
      needsComparisonCast conjunct.literal.dataType
        (widerType conjunct.column.type conjunct.literal.dataType) = false := by
  obtain ⟨op,column,value,rest,nodes,name,test,extracted⟩ := parse_some parsed
  obtain ⟨given,compared,literal,first⟩ := conjunct
  obtain ⟨sameOp,tail⟩ := List.cons.inj nodes
  obtain ⟨left,bare,right⟩ := castOperand_slotRef tail
  obtain ⟨written,plain⟩ := castOperand_literal right
  cases sameOp
  cases first with
  | false => cases left
  | true =>
    cases left
    cases written
    exact ⟨rfl,name,test,extracted,bare,plain⟩

/-! ### Sound pairs -/

/-- The pairs of column type and literal type by which files are pruned rightly: a string literal
needs a string column; a string column needs no boolean, integer or date; a decimal column needs an
integer, a date or a datetime; a date does not go with a float or a timestamp. -/
def prunesSafely : DataType → LiteralType → Bool
  | .utf8, .bool => false
  | .utf8, .int => false
  | .utf8, .date => false
  | .utf8, _ => true
  | .decimal128 _ _, .bool => false
  | .decimal128 _ _, .decimal => false
  | .decimal128 _ _, .string => false
  | .decimal128 _ _, _ => true
  | _, .string => false
  | .float32, .date => false
  | .float64, .date => false
  | .timestamp, .date => false
  | _, _ => true

section
variable (conversions : Conversions)

/-- A literal that a value satisfies is not ruled out by right bounds around the value, nor by the
partition value it gives. -/
structure PairSound (type : DataType) (literal : LiteralValue) (value : MinMaxPredicateValue) : Prop where
  stats : ∀ op test cell stats name, predicateOp op = some test → Holds type cell →
    conversions.compare op (type, cell) (literal.dataType, literal.cell) = true →
    (∀ bytes, stats.lowerBound = some bytes → ∃ low, Holds type low ∧ bytes = encode type low ∧
      conversions.cellLe low cell = true) →
    (∀ bytes, stats.upperBound = some bytes → ∃ high, Holds type high ∧ bytes = encode type high ∧
      conversions.cellLe cell high = true) →
    statsMaySatisfyPredicate stats ⟨test, name, value⟩ = true
  partitions : ∀ op test cell name, predicateOp op = some test → Holds type cell →
    conversions.compare op (type, cell) (literal.dataType, literal.cell) = true →
    ∃ point, icebergPartitionValueFromLiteral type cell = some point ∧
      partitionValueMaySatisfyPredicate point ⟨test, name, value⟩ ≠ some false

/-- Bounds that decode to keys in the values' order, and a comparison that is one of keys. -/
structure Keyed {κ : Type} (le : κ → κ → Bool) (decode : List Nat → Option κ) (type : DataType)
    (literal : LiteralValue) (key : Cell → κ) (value : κ) : Prop where
  decodes : ∀ cell, Holds type cell → decode (encode type cell) = some (key cell)
  mono : ∀ a b, Holds type a → Holds type b → conversions.cellLe a b = true → le (key a) (key b) = true
  compares : ∀ op test cell, predicateOp op = some test → Holds type cell →
    conversions.compare op (type, cell) (literal.dataType, literal.cell) = true →
    rangeMaySatisfy le (key cell) (key cell) test value = true

variable {conversions} {type : DataType} {literal : LiteralValue} {cell : Cell} {op : BinOp}

theorem Keyed.stats {le : κ → κ → Bool} {decode : List Nat → Option κ} {key : Cell → κ} {value : κ}
    (keyed : Keyed conversions le decode type literal key value)
    (trans : ∀ a b c, le a b = true → le b c = true → le a c = true) {stats : IcebergColumnStats}
    (parsed : predicateOp op = some test) (holds : Holds type cell)
    (satisfied : conversions.compare op (type, cell) (literal.dataType, literal.cell) = true)
    (lower : ∀ bytes, stats.lowerBound = some bytes → ∃ low, Holds type low ∧
      bytes = encode type low ∧ conversions.cellLe low cell = true)
    (upper : ∀ bytes, stats.upperBound = some bytes → ∃ high, Holds type high ∧
      bytes = encode type high ∧ conversions.cellLe cell high = true) :
    statsMaySatisfy decode (rangeMaySatisfy le) stats test value = true := by
  unfold statsMaySatisfy
  cases hasLower : stats.lowerBound with
  | none => rfl
  | some lowBytes =>
    cases hasUpper : stats.upperBound with
    | none =>
      split <;> first | contradiction | rfl
    | some highBytes =>
      obtain ⟨low,lowHolds,rfl,below⟩ := lower lowBytes hasLower
      obtain ⟨high,highHolds,rfl,above⟩ := upper highBytes hasUpper
      rw [Option.bind_some, Option.bind_some, keyed.decodes low lowHolds, keyed.decodes high highHolds]
      exact range_of_point trans (keyed.mono low cell lowHolds holds below)
        (keyed.mono cell high holds highHolds above) (keyed.compares op test cell parsed holds satisfied)

/-! ### Integer keys -/

def intKey : Cell → Int
  | .bool value => boolInt value
  | .int value => value
  | _ => 0

def intCoded : DataType → Bool
  | .boolean => true
  | .int32 => true
  | .int64 => true
  | .date32 => true
  | .timestamp => true
  | _ => false

variable (coded : intCoded type = true)

variable (holds : Holds type cell)

include coded holds in
theorem intCoded_cell : (∃ value, cell = .bool value) ∨ ∃ value, cell = .int value := by
  cases cell with
  | bool value => exact .inl ⟨value,rfl⟩
  | int value => exact .inr ⟨value,rfl⟩
  | _ => cases type <;> simp [intCoded, Holds] at coded holds

include coded holds in
theorem decodeI64Bound_encode : decodeI64Bound (encode type cell) = some (intKey cell) := by
  have decoded : ∀ (count : Nat) (value : Int), count = 4 ∨ count = 8 →
      -((256 ^ count / 2 : Nat) : Int) ≤ value ∧ value < (256 ^ count / 2 : Nat) →
      decodeI64Bound (signedBytes count value) = some value := by
    intro count value wide range
    have size : (signedBytes count value).length = count := length_leBytes _ _
    rw [decodeI64Bound, size, ofSignedBytes_signedBytes range.1 range.2]
    rcases wide with rfl | rfl <;> rfl
  rcases intCoded_cell coded holds with ⟨value,rfl⟩ | ⟨value,rfl⟩
  · cases type with
    | boolean => cases value <;> rfl
    | _ => cases holds
  · cases type with
    | int32 | date32 => exact decoded 4 value (.inl rfl) holds
    | int64 | timestamp => exact decoded 8 value (.inr rfl) holds
    | decimal128 => cases coded
    | _ => cases holds

theorem intKey_mono (coded : intCoded type = true)
    (first : Holds type a) (below : conversions.cellLe a b = true) : i64Le (intKey a) (intKey b) = true := by
  rcases intCoded_cell coded first with ⟨x,rfl⟩ | ⟨x,rfl⟩
  · cases b with
    | bool y => cases x <;> cases y <;> first | rfl | cases below
    | _ => cases below
  · cases b with
    | int y => exact below
    | _ => cases below

theorem compare_converted (parsed : predicateOp op = some test)
    (satisfied : conversions.compare op left right = true)
    (first : conversions.convert left.1 (widerType left.1 right.1) left.2 = some a)
    (second : conversions.convert right.1 (widerType left.1 right.1) right.2 = some b) :
    rangeMaySatisfy conversions.cellLe a a test b = true := by
  rw [← comparison_of_point parsed]
  unfold Conversions.compare at satisfied
  split at satisfied
  · cases satisfied
  · simp only [first, second] at satisfied
    exact satisfied

include coded in
theorem int_pair (left : ∀ cell, Holds type cell →
      conversions.convert type (widerType type literal.dataType) cell = some (.int (intKey cell)))
    (right : conversions.convert literal.dataType (widerType type literal.dataType) literal.cell =
      some (.int number))
    (noBool : value.asBool = none) (read : value.asI64 = some number) :
    PairSound conversions type literal value := by
  have compares : ∀ op test cell, predicateOp op = some test → Holds type cell →
      conversions.compare op (type, cell) (literal.dataType, literal.cell) = true →
      rangeMaySatisfy i64Le (intKey cell) (intKey cell) test number = true := by
    intro op test cell parsed holds satisfied
    cases test <;> exact compare_converted parsed satisfied (left cell holds) right
  have keyed : Keyed conversions i64Le decodeI64Bound type literal intKey number :=
    ⟨fun cell => decodeI64Bound_encode coded,fun a b first _ => intKey_mono coded first,compares⟩
  constructor
  · intro op test cell stats name parsed holds satisfied lower upper
    rw [statsMaySatisfyPredicate, noBool]
    simp only [read]
    exact keyed.stats i64Le_trans parsed holds satisfied lower upper
  · intro op test cell name parsed holds satisfied
    have passes := compares op test cell parsed holds satisfied
    have whole : ∀ point : Int, intKey cell = point →
        value.asI64.map (rangeMaySatisfyI64 point point test) ≠ some false := by
      rintro point rfl
      rw [read, Option.map_some, rangeMaySatisfyI64, passes]
      simp
    rcases intCoded_cell coded holds with ⟨truth,rfl⟩ | ⟨number,rfl⟩
    · cases type with
      | boolean =>
        refine ⟨_,rfl,?_⟩
        simp [partitionValueMaySatisfyPredicate, noBool]
      | _ => cases holds
    · cases type with
      | int32 | int64 | date32 | timestamp => exact ⟨_,rfl,whole number rfl⟩
      | decimal128 => cases coded
      | _ => cases holds

theorem bool_pair (value : Bool) : PairSound conversions .boolean (.bool value) (.boolean value) := by
  have compares : ∀ op test truth, predicateOp op = some test →
      conversions.compare op (.boolean, .bool truth) (.boolean, .bool value) = true →
      rangeMaySatisfyI64 (boolInt truth) (boolInt truth) test (boolInt value) = true := by
    intro op test truth parsed satisfied
    have holds := compare_converted parsed satisfied (conversions.same _ _) (conversions.same _ _)
    cases test <;> cases truth <;> cases value <;> first | rfl | cases holds
  constructor
  · intro op test cell stats name parsed holds satisfied lower upper
    have keyed : Keyed conversions i64Le (fun bytes => (decodeBoolBound bytes).map boolInt) .boolean
        (.bool value) intKey (boolInt value) := by
      refine ⟨fun cell holds => ?_,fun a b first _ => @intKey_mono conversions .boolean a b rfl first,
        fun op test cell parsed holds satisfied => ?_⟩
      · cases cell with
        | bool truth => cases truth <;> rfl
        | _ => cases holds
      · cases cell with
        | bool truth => exact compares op test truth parsed satisfied
        | _ => cases holds
    exact keyed.stats i64Le_trans parsed holds satisfied lower upper
  · intro op test cell name parsed holds satisfied
    cases cell with
    | bool truth =>
      refine ⟨_,rfl,?_⟩
      have passes := compares op test truth parsed satisfied
      simp only [partitionValueMaySatisfyPredicate, asBool, Option.map_some, passes]
      simp
    | _ => cases holds

def Cell.bytes : Cell → List Nat
  | .text bytes => bytes
  | _ => []

theorem text_pair (bytes : List Nat) : PairSound conversions .utf8 (.string bytes) (.byteArray bytes) := by
  have compares : ∀ op test text, predicateOp op = some test →
      conversions.compare op (.utf8, .text text) (.utf8, .text bytes) = true →
      rangeMaySatisfyBytes text text test bytes = true := by
    intro op test text parsed satisfied
    cases test <;> exact compare_converted parsed satisfied (conversions.same _ _) (conversions.same _ _)
  have textOf : ∀ cell, Holds .utf8 cell → ∃ text, cell = .text text := by
    intro cell holds
    cases cell with
    | text text => exact ⟨text,rfl⟩
    | _ => cases holds
  constructor
  · intro op test cell stats name parsed holds satisfied lower upper
    have keyed : Keyed conversions bytesLe some .utf8 (.string bytes) Cell.bytes bytes := by
      refine ⟨fun cell holds => ?_,fun a b first second below => ?_,
        fun op test cell parsed holds satisfied => ?_⟩
      · obtain ⟨text,rfl⟩ := textOf cell holds
        rfl
      · obtain ⟨x,rfl⟩ := textOf a first
        obtain ⟨y,rfl⟩ := textOf b second
        exact below
      · obtain ⟨text,rfl⟩ := textOf cell holds
        exact compares op test text parsed satisfied
    exact keyed.stats bytesLe_trans parsed holds satisfied lower upper
  · intro op test cell name parsed holds satisfied
    obtain ⟨text,rfl⟩ := textOf cell holds
    refine ⟨_,rfl,?_⟩
    have passes := compares op test text parsed satisfied
    simp only [partitionValueMaySatisfyPredicate, asBytes, Option.map_some, passes]
    simp

variable (plain : ∀ precision scale, type ≠ .decimal128 precision scale)

include plain in
theorem partitionValue_some (holds : Holds type cell) :
    ∃ point, icebergPartitionValueFromLiteral type cell = some point := by
  cases type with
  | decimal128 precision scale => exact absurd rfl (plain precision scale)
  | _ => cases cell <;> first | exact ⟨_,rfl⟩ | cases holds

include plain in
theorem unread_pair (unscaled : Int) (p s : Nat) :
    PairSound conversions type (.decimal unscaled p s) (.decimal128 unscaled p s) := by
  refine ⟨fun op test cell stats name _ _ _ _ _ => rfl,fun op test cell name _ holds _ => ?_⟩
  obtain ⟨point,known⟩ := partitionValue_some plain holds
  refine ⟨point,known,?_⟩
  cases point <;> simp [partitionValueMaySatisfyPredicate, asBool,
    asI64, asBytes]

theorem decodeBoolBound_long (long : 1 < bytes.length) : decodeBoolBound bytes = none := by
  unfold decodeBoolBound
  split
  case h_1 => exact absurd long (by decide)
  case h_2 => exact absurd long (by decide)
  case h_3 => rfl

variable (wide : type = .int32 ∨ type = .int64 ∨ type = .float32 ∨ type = .float64 ∨ type = .date32
    ∨ type = .timestamp)

include holds wide in
theorem encode_long : 1 < (encode type cell).length := by
  rcases wide with rfl | rfl | rfl | rfl | rfl | rfl
  all_goals cases cell <;> first | (simp [encode, signedBytes]; done) | cases holds

include wide in
theorem undecoded_pair (value : Bool) : PairSound conversions type (.bool value) (.boolean value) := by
  constructor
  · intro op test cell stats name _ _ _ lower _
    have unread : stats.lowerBound.bind (fun bytes => (decodeBoolBound bytes).map boolInt) = none := by
      cases bound : stats.lowerBound with
      | none => rfl
      | some bytes =>
        obtain ⟨low,holds,rfl,-⟩ := lower bytes bound
        rw [Option.bind_some, decodeBoolBound_long (encode_long holds wide)]
        rfl
    change statsMaySatisfy _ _ stats test (boolInt value) = true
    rw [statsMaySatisfy, unread]
  · intro op test cell name _ holds _
    rcases wide with rfl | rfl | rfl | rfl | rfl | rfl
    all_goals cases cell <;> first | exact ⟨_,rfl,nofun⟩ | cases holds

theorem compare_unconverted (none : conversions.convert right.1 (widerType left.1 right.1) right.2 = none) :
    conversions.compare op left right = false := by
  unfold Conversions.compare
  split
  case isTrue => rfl
  case isFalse =>
    simp only [none]
    split
    case h_1 _ _ _ impossible => cases impossible
    case h_2 => rfl

theorem never_pair
    (none : conversions.convert literal.dataType (widerType type literal.dataType) literal.cell = none) :
    PairSound conversions type literal value := by
  have fails : ∀ op cell,
      conversions.compare op (type, cell) (literal.dataType, literal.cell) ≠ true := by
    intro op cell satisfied
    rw [compare_unconverted none] at satisfied
    cases satisfied
  exact ⟨fun op _ cell _ _ _ _ satisfied => absurd satisfied (fails op cell),
    fun op _ cell _ _ _ satisfied => absurd satisfied (fails op cell)⟩

include coded holds in
theorem converts_int64 : conversions.convert type .int64 cell = some (.int (intKey cell)) := by
  rcases intCoded_cell coded holds with ⟨truth,rfl⟩ | ⟨value,rfl⟩
  · cases type with
    | boolean => exact conversions.boolean_int64 truth
    | _ => cases holds
  · cases type with
    | int32 => exact conversions.int32_int64 value
    | int64 => exact conversions.same .int64 (.int value)
    | date32 => exact conversions.date32_int64 value
    | timestamp => exact conversions.timestamp_int64 value
    | decimal128 => cases coded
    | _ => cases holds

include coded in
theorem int64_pair (wider : widerType type literal.dataType = .int64)
    (right : conversions.convert literal.dataType .int64 literal.cell = some (.int number))
    (noBool : value.asBool = none) (read : value.asI64 = some number) :
    PairSound conversions type literal value := by
  apply int_pair coded _ _ noBool read
  · intro cell holds
    rw [wider]
    exact converts_int64 coded holds
  · rw [wider]
    exact right

theorem pair_sound
    (safe : prunesSafely type literal.type = true) (extracted : extractLiteralValue literal = some value)
    (plain : needsComparisonCast literal.dataType (widerType type literal.dataType) = false) :
    PairSound conversions type literal value := by
  cases literal with
  | bool truth =>
    cases extracted
    cases type with
    | boolean => exact bool_pair truth
    | decimal128 | utf8 => cases safe
    | _ => exact undecoded_pair (by simp) truth
  | int number =>
    cases extracted
    cases type with
    | utf8 => cases safe
    | decimal128 | float32 | float64 => cases plain
    | _ => exact int64_pair rfl rfl (conversions.same .int64 (.int number)) rfl rfl
  | decimal unscaled p s =>
    cases extracted
    cases type with
    | decimal128 p s => cases safe
    | _ => exact unread_pair (fun _ _ same => by cases same) unscaled p s
  | string bytes =>
    cases extracted
    cases type with
    | utf8 => exact text_pair bytes
    | _ => cases safe
  | date days =>
    cases extracted
    cases type with
    | boolean => exact never_pair (conversions.date32_boolean days)
    | decimal128 p s => exact never_pair (conversions.date32_decimal days p s)
    | int32 | int64 => exact int64_pair rfl rfl (conversions.date32_int64 days) rfl rfl
    | date32 =>
      refine int_pair rfl (fun cell holds => ?_) (conversions.same .date32 (.int days)) rfl rfl
      cases cell with
      | int value => exact conversions.same .date32 (.int value)
      | _ => cases holds
    | _ => cases safe
  | datetime micros => cases extracted

end

end NovaRocks.Codegen.Pruning
