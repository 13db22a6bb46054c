import NovaRocks.Codegen.FilePruningSafe

/-!
When pruning is safe for every rightly described file: exactly when the conjuncts only
compare types that go together. One way, a row that satisfies a conjunct keeps the file
for the predicate the conjunct becomes; the other way, every other pair of types loses
a file of one row.
-/
namespace NovaRocks.Codegen.Pruning
open NovaRocks.Store List
open MinMaxPredicateValue (asBool asBytes asI64)

theorem Table.column_eq (table : Table) (first : a ∈ table.columns)
    (second : b ∈ table.columns) (same : eqIgnoreAsciiCase a.name b.name = true) : a = b := by
  by_contra different
  have symmetric : Std.Symm fun a b : Column => eqIgnoreAsciiCase a.name b.name = false := by
    constructor
    intro x y distinct
    rw [eqIgnoreAsciiCase, Bool.beq_comm]
    exact distinct
  have distinct := table.distinct.forall first second different
  cases same.symm.trans distinct

theorem findColumnStats_mem (found : findColumnStats columnStats name = some stats) :
    ∃ entry ∈ columnStats, entry.2 = stats ∧ eqIgnoreAsciiCase entry.1 name = true := by
  unfold findColumnStats at found
  split at found
  case h_1 entry exact =>
    cases found
    have same := find?_some exact
    refine ⟨entry,mem_of_find?_eq_some exact,rfl,?_⟩
    rw [beq_iff_eq] at same
    rw [same, eqIgnoreAsciiCase, beq_self_eq_true]
  case h_2 =>
    obtain ⟨entry,loose,rfl⟩ := Option.map_eq_some_iff.mp found
    have same : eqIgnoreAsciiCase entry.1 name = true := by
      simpa using find?_some loose
    exact ⟨entry,mem_of_find?_eq_some loose,rfl,same⟩

theorem Holds.present (holds : Holds type cell) : cell ≠ .null := by
  rintro rfl
  cases type <;> cases holds

section
variable {file : DataFile} {conjunct : Conjunct} (right : file.Right conversions table)
  (known : conjunct.column ∈ table.columns) (inFile : row ∈ file.rows)
include right known inFile

theorem partition_value (found : (file.info.partitionValues.find? fun field => field.identity &&
      eqIgnoreAsciiCase field.sourceColumn conjunct.column.name) = some field) :
    field.value = icebergPartitionValueFromLiteral conjunct.column.type (row conjunct.column.name) := by
  have chosen := find?_some found
  rw [Bool.and_eq_true] at chosen
  obtain ⟨column,inTable,named,cell,all,value⟩ :=
    right.partitions field (mem_of_find?_eq_some found) chosen.1
  obtain rfl := table.column_eq inTable known (named ▸ chosen.2)
  rw [value, all row inFile]

variable (parsed : parseMinMaxConjunct conjunct.compile = some predicate)
  (satisfied : conjunct.satisfied conversions row = true)
include parsed satisfied

theorem satisfied_holds : Holds conjunct.column.type (row conjunct.column.name) := by
  refine (right.typed row inFile _ known).resolve_left fun null => ?_
  simp [Conjunct.satisfied, (parsed_conjunct parsed).1, null, Conversions.compare] at satisfied

variable (safe : prunesSafely conjunct.column.type conjunct.literal.type = true)
include safe

/-- The predicate is about the conjunct's column, and the row's value passes it there. -/
theorem satisfied_parsed :
    predicate.column = conjunct.column.name ∧ predicateOp conjunct.op = some predicate.op ∧
      Holds conjunct.column.type (row conjunct.column.name) ∧
      conversions.compare conjunct.op (conjunct.column.type, row conjunct.column.name)
        (conjunct.literal.dataType, conjunct.literal.cell) = true ∧
      PairSound conversions conjunct.column.type conjunct.literal predicate.value := by
  obtain ⟨first,name,test,extracted,-,plain⟩ := parsed_conjunct parsed
  refine ⟨name,test,satisfied_holds right known inFile parsed satisfied,?_,pair_sound safe extracted plain⟩
  simpa [Conjunct.satisfied, first] using satisfied

theorem partition_kept : partitionMaySatisfyPredicate file.info predicate ≠ some false := by
  obtain ⟨name,test,holds,compared,sound⟩ := satisfied_parsed right known inFile parsed satisfied safe
  unfold partitionMaySatisfyPredicate
  split
  case h_1 => exact nofun
  case h_2 field found =>
    obtain ⟨point,given,kept⟩ := sound.partitions conjunct.op predicate.op _ predicate.column test holds compared
    rw [partition_value right known inFile (name ▸ found), given]
    exact kept

theorem stats_kept (given : file.info.columnStats = some columnStats)
    (found : findColumnStats columnStats predicate.column = some stats) :
    statsMaySatisfyPredicate stats predicate = true := by
  obtain ⟨name,test,holds,compared,sound⟩ := satisfied_parsed right known inFile parsed satisfied safe
  obtain ⟨entry,listed,rfl,loose⟩ := findColumnStats_mem found
  obtain ⟨column,inTable,named,lower,upper⟩ := right.stats columnStats given entry listed
  have same : column = conjunct.column := table.column_eq inTable known (by
    rw [named, ← name]
    exact loose)
  subst same
  refine sound.stats conjunct.op predicate.op _ entry.2 predicate.column test holds compared ?_ ?_
  · intro bytes bound
    obtain ⟨low,lowHolds,coded,below⟩ := lower bytes bound
    exact ⟨low,lowHolds,coded,below row inFile holds.present⟩
  · intro bytes bound
    obtain ⟨high,highHolds,coded,above⟩ := upper bytes bound
    exact ⟨high,highHolds,coded,above row inFile holds.present⟩

theorem predicate_kept : predicateMaySatisfy file.info predicate = true := by
  unfold predicateMaySatisfy
  split
  case h_1 maySatisfy decided =>
    have kept := partition_kept right known inFile parsed satisfied safe
    rw [decided] at kept
    cases maySatisfy with
    | true => rfl
    | false => exact absurd rfl kept
  case h_2 =>
    split
    case h_1 => rfl
    case h_2 columnStats given =>
      split
      case h_1 => rfl
      case h_2 stats found => exact stats_kept right known inFile parsed satisfied safe given found

end

/-! ### Conjuncts that nothing is decided by -/

section
variable (file : S3FileInfo)

def boundRead : LiteralType → List Nat → Bool
  | .bool, bytes => (decodeBoolBound bytes).isSome
  | .int, bytes | .date, bytes => (decodeI64Bound bytes).isSome
  | .string, _ => true
  | .decimal, _ | .datetime, _ => false

def statsRead (type : LiteralType) (stats : IcebergColumnStats) : Bool :=
  stats.lowerBound.any (boundRead type) && stats.upperBound.any (boundRead type)

/-- An identity partition field of a column whose partition values are read wrongly. -/
def partitionRead (conjunct : Conjunct) : Bool :=
  (file.partitionValues.any fun field =>
    field.identity && eqIgnoreAsciiCase field.sourceColumn conjunct.column.name) &&
  match conjunct.column.type with
  | .decimal128 _ _ => true
  | .timestamp => decide (conjunct.literal.type = .date)
  | _ => false

/-- The conjunct becomes a predicate, and the file holds something of the column that the predicate is
decided by. -/
def Conjunct.reaches (conjunct : Conjunct) : Bool :=
  (parseMinMaxConjunct conjunct.compile).isSome && (partitionRead file conjunct ||
    (file.columnStats.bind fun stats => findColumnStats stats conjunct.column.name).any
      (statsRead conjunct.literal.type))

end

theorem undecoded_stats {decode : List Nat → Option κ} {range : κ → κ → MinMaxPredicateOp → κ → Bool}
    (unread : (stats.lowerBound.any (fun bytes => (decode bytes).isSome) &&
      stats.upperBound.any fun bytes => (decode bytes).isSome) = false) :
    statsMaySatisfy decode range stats op value = true := by
  unfold statsMaySatisfy
  split
  case h_1 lower upper first second =>
    obtain ⟨low,has,decoded⟩ := Option.bind_eq_some_iff.mp first
    obtain ⟨high,has',decoded'⟩ := Option.bind_eq_some_iff.mp second
    simp [has, has', decoded, decoded'] at unread
  case h_2 => rfl

theorem unread_stats {predicate : MinMaxPredicate} (extracted : extractLiteralValue literal = some predicate.value)
    (unread : statsRead literal.type stats = false) : statsMaySatisfyPredicate stats predicate = true := by
  obtain ⟨op,name,value⟩ := predicate
  cases literal with
  | datetime => cases extracted
  | decimal => cases extracted; rfl
  | bool =>
    cases extracted
    refine undecoded_stats ?_
    simp only [Option.isSome_map]
    exact unread
  | int | string | date => cases extracted; exact undecoded_stats unread

theorem unread_partition {predicate : MinMaxPredicate}
    (mixed : prunesSafely type literal.type = false) (extracted : extractLiteralValue literal = some predicate.value)
    (plain : ∀ precision scale, type ≠ .decimal128 precision scale)
    (undated : ¬ (type = .timestamp ∧ literal.type = .date)) (holds : Holds type cell) :
    ∃ point, icebergPartitionValueFromLiteral type cell = some point ∧
      partitionValueMaySatisfyPredicate point predicate = none := by
  obtain ⟨op,name,value⟩ := predicate
  obtain ⟨point,given⟩ := partitionValue_some plain holds
  refine ⟨point,given,?_⟩
  cases literal <;> cases extracted <;> cases type <;>
    first
      | (cases mixed; done)
      | exact absurd rfl (plain _ _)
      | exact absurd ⟨rfl,rfl⟩ undated
      | (cases cell <;> first | (cases given; rfl) | cases given)

section
variable {file : DataFile} {conjunct : Conjunct}

/-- A conjunct that a row satisfies keeps the file where its types do not go together either, if
the file holds nothing that decides it. -/
theorem unreached_kept (right : file.Right conversions table) (known : conjunct.column ∈ table.columns)
    (inFile : row ∈ file.rows) (parsed : parseMinMaxConjunct conjunct.compile = some predicate)
    (mixed : prunesSafely conjunct.column.type conjunct.literal.type = false)
    (unreached : conjunct.reaches file.info = false) (satisfied : conjunct.satisfied conversions row = true) :
    predicateMaySatisfy file.info predicate = true := by
  obtain ⟨first,name,test,extracted,-,-⟩ := parsed_conjunct parsed
  simp only [Conjunct.reaches, parsed, Option.isSome_some, Bool.true_and, Bool.or_eq_false_iff] at unreached
  have undecided : partitionMaySatisfyPredicate file.info predicate = none := by
    unfold partitionMaySatisfyPredicate
    split
    case h_1 => rfl
    case h_2 field found =>
      have chosen := find?_some found
      have listed : (file.info.partitionValues.any fun field => field.identity &&
          eqIgnoreAsciiCase field.sourceColumn conjunct.column.name) = true :=
        any_eq_true.mpr ⟨field,mem_of_find?_eq_some found,name ▸ chosen⟩
      rw [partitionRead, listed, Bool.true_and] at unreached
      obtain ⟨point,given,none'⟩ := unread_partition mixed extracted
        (fun precision scale decimal => by simp [decimal] at unreached)
        (fun dated => by simp [dated] at unreached) (satisfied_holds right known inFile parsed satisfied)
      rw [partition_value right known inFile (name ▸ found), given]
      exact none'
  unfold predicateMaySatisfy
  rw [undecided]
  dsimp only
  split
  case h_1 => rfl
  case h_2 columnStats given =>
    split
    case h_1 => rfl
    case h_2 stats found =>
      refine unread_stats extracted ?_
      simpa [given, ← name, found] using unreached.2

end


/-! ### Files of one row -/

def lone (type : DataType) : Column :=
  ⟨"c", type⟩

def loneTable (type : DataType) : Table :=
  ⟨[lone type], pairwise_singleton _ _⟩

def boundedFile (type : DataType) (cell : Cell) : DataFile :=
  ⟨⟨some [("c", ⟨some (encode type cell), some (encode type cell)⟩)], []⟩, [fun _ => cell]⟩

def partitionedFile (type : DataType) (cell : Cell) : DataFile :=
  ⟨⟨none, [⟨"c", true, icebergPartitionValueFromLiteral type cell⟩]⟩, [fun _ => cell]⟩

section
variable (conversions : Conversions)

theorem boundedFile_right (holds : Holds type cell) (reflexive : conversions.cellLe cell cell = true) :
    (boundedFile type cell).Right conversions (loneTable type) := by
  refine ⟨?_,?_,fun field listed => absurd listed not_mem_nil⟩
  · intro row inFile column known
    rw [mem_singleton.mp inFile, mem_singleton.mp known]
    exact .inr holds
  · intro columnStats given entry listed
    cases given
    rw [mem_singleton.mp listed]
    refine ⟨lone type,mem_singleton_self _,rfl,?_,?_⟩
    all_goals
      intro bytes bound
      cases bound
      refine ⟨cell,holds,rfl,fun row inFile _ => ?_⟩
      rw [mem_singleton.mp inFile]
      exact reflexive

theorem partitionedFile_right (holds : Holds type cell) :
    (partitionedFile type cell).Right conversions (loneTable type) := by
  refine ⟨?_,nofun,?_⟩
  · intro row inFile column known
    rw [mem_singleton.mp inFile, mem_singleton.mp known]
    exact .inr holds
  · intro field listed identity
    rw [mem_singleton.mp listed]
    refine ⟨lone type,mem_singleton_self _,rfl,cell,?_,rfl⟩
    intro row inFile
    rw [mem_singleton.mp inFile]

/-- A comparison by which a rightly described file is dropped with a row that satisfies it. -/
structure Loses (conjunct : Conjunct) (file : DataFile) : Prop where
  lone : conjunct.column = lone conjunct.column.type
  right : file.Right conversions (loneTable conjunct.column.type)
  dropped : fileMaySatisfyMinMax file.info (scanFileMinMaxPredicates [conjunct]) = false
  satisfied : ∃ row ∈ file.rows, conjunct.satisfied conversions row = true

def LosesSome (type : DataType) (literalType : LiteralType) : Prop :=
  ∃ conjunct file, conjunct.column.type = type ∧ conjunct.literal.type = literalType ∧
    Loses conversions conjunct file

variable {conversions}

theorem compare_eq (leftPresent : left.2 ≠ .null) (rightPresent : right.2 ≠ .null)
    (first : conversions.convert left.1 (widerType left.1 right.1) left.2 = some a)
    (second : conversions.convert right.1 (widerType left.1 right.1) right.2 = some b) :
    conversions.compare op left right = comparisonHolds conversions.cellLe op a b := by
  simp [Conversions.compare, leftPresent, rightPresent, first, second]

theorem literal_present (literal : LiteralValue) : literal.cell ≠ .null := by
  cases literal <;> exact nofun

theorem loses_bounded (op : BinOp) (literal : LiteralValue) (holds : Holds type cell)
    (reflexive : conversions.cellLe cell cell = true)
    (first : conversions.convert type (widerType type literal.dataType) cell = some a)
    (second : conversions.convert literal.dataType (widerType type literal.dataType) literal.cell = some b)
    (compared : comparisonHolds conversions.cellLe op a b = true)
    (dropped : fileMaySatisfyMinMax (boundedFile type cell).info
      (scanFileMinMaxPredicates [⟨lone type, op, literal, true⟩]) = false) :
    LosesSome conversions type literal.type := by
  refine ⟨⟨lone type,op,literal,true⟩,_,rfl,rfl,rfl,boundedFile_right conversions holds reflexive,dropped,_,
    mem_singleton_self _,?_⟩
  exact (compare_eq holds.present (literal_present literal) first second).trans compared

/-- A decimal partition value is taken for NULL, whatever literal the decimal column is compared
with. -/
theorem partitionedFile_dropped
    (wider : widerType (.decimal128 precision scale) literal.dataType = .decimal128 p s)
    (plain : needsComparisonCast literal.dataType (.decimal128 p s) = false)
    (extracted : extractLiteralValue literal = some value) :
    fileMaySatisfyMinMax (partitionedFile (.decimal128 precision scale) (.int 0)).info
      (scanFileMinMaxPredicates [⟨lone (.decimal128 precision scale), .eq, literal, true⟩]) = false := by
  have written : castOperand (.decimal128 p s) (.literal literal) = [.literal literal] := by
    cases literal with
    | datetime micros => cases extracted
    | _ => simp [castOperand, Operand.dataType, plain, Operand.nodes]
  have compiled : Conjunct.compile ⟨lone (.decimal128 precision scale),.eq,literal,true⟩ =
      [.binaryPred .eq, .slotRef (lone (.decimal128 precision scale)), .literal literal] := by
    change ExprNode.binaryPred .eq ::
      (castOperand (widerType (.decimal128 precision scale) literal.dataType)
          (.column (lone (.decimal128 precision scale))) ++
        castOperand (widerType (.decimal128 precision scale) literal.dataType) (.literal literal)) = _
    rw [wider, written]
    rfl
  have parsed : parseMinMaxConjunct (Conjunct.compile ⟨lone (.decimal128 precision scale),.eq,literal,true⟩) =
      some ⟨.eq,"c",value⟩ := by
    rw [compiled]
    simp [parseMinMaxConjunct, predicateOp, extracted, lone]
  simp [scanFileMinMaxPredicates, parsed, fileMaySatisfyMinMax, predicateMaySatisfy,
    partitionMaySatisfyPredicate, partitionedFile, icebergPartitionValueFromLiteral, eqIgnoreAsciiCase]

theorem loses_partitioned (literal : LiteralValue)
    (wider : widerType (.decimal128 precision scale) literal.dataType = .decimal128 p s)
    (plain : needsComparisonCast literal.dataType (.decimal128 p s) = false)
    (extracted : extractLiteralValue literal = some value)
    (zero : conversions.convert literal.dataType (.decimal128 p s) literal.cell = some (.int 0)) :
    LosesSome conversions (.decimal128 precision scale) literal.type := by
  have holds : Holds (.decimal128 precision scale) (.int 0) := Nat.pow_pos (by omega)
  have compared : conversions.compare .eq (.decimal128 precision scale, .int 0)
      (literal.dataType, literal.cell) = comparisonHolds conversions.cellLe .eq (.int 0) (.int 0) := by
    apply compare_eq holds.present (literal_present literal)
    · rw [wider]
      exact conversions.decimal_decimal precision scale p s
    · rw [wider]
      exact zero
  exact ⟨⟨lone (.decimal128 precision scale),.eq,literal,true⟩,_,rfl,rfl,rfl,partitionedFile_right conversions holds,
    partitionedFile_dropped wider plain extracted,_,mem_singleton_self _,compared⟩

theorem widerType_decimal (p s p' s' : Nat) :
    ∃ precision scale, widerType (.decimal128 p s) (.decimal128 p' s') = .decimal128 precision scale := by
  unfold widerType
  split
  case isTrue => exact ⟨p,s,rfl⟩
  case isFalse => exact ⟨_,_,rfl⟩

theorem loses_string (mixed : prunesSafely type .string = false) : LosesSome conversions type .string := by
  have zero : conversions.cellLe (.int 0) (.int 0) = true := rfl
  have floats : conversions.cellLe (.float32 0) (.float32 0) = true := conversions.float32Le_zero
  have doubles : conversions.cellLe (.float64 0) (.float64 0) = true := conversions.float64Le_zero
  have text : ∀ bytes, bytesLe zeroText bytes = true →
      comparisonHolds conversions.cellLe .ge (.text bytes) (.text zeroText) = true :=
    fun bytes above => above
  cases type with
  | boolean =>
    obtain ⟨bytes,converted,above⟩ := conversions.boolean_utf8 false
    exact loses_bounded .ge (.string zeroText) (by simp [Holds]) rfl converted (conversions.same _ _)
      (text bytes above) rfl
  | int32 =>
    exact loses_bounded .ge (.string zeroText) (by simp [Holds]) zero (conversions.int32_int64 0)
      conversions.utf8_int64 zero rfl
  | int64 =>
    exact loses_bounded .ge (.string zeroText) (by simp [Holds]) zero (conversions.same _ _)
      conversions.utf8_int64 zero rfl
  | float32 =>
    exact loses_bounded .ge (.string zeroText) (by simp [Holds]) floats conversions.float32_float64
      conversions.utf8_float64 doubles rfl
  | float64 =>
    exact loses_bounded .ge (.string zeroText) (by simp [Holds]) doubles (conversions.same _ _)
      conversions.utf8_float64 doubles rfl
  | decimal128 precision scale =>
    have holds : Holds (.decimal128 precision scale) (.int 0) := Nat.pow_pos (by omega)
    exact loses_bounded .ge (.string zeroText) holds zero (conversions.same _ _)
      (conversions.utf8_decimal precision scale) zero rfl
  | date32 =>
    obtain ⟨bytes,converted,above⟩ := conversions.date32_utf8
    exact loses_bounded .ge (.string zeroText) (by simp [Holds]) zero converted (conversions.same _ _)
      (text bytes above) rfl
  | timestamp =>
    obtain ⟨bytes,converted,above⟩ := conversions.timestamp_utf8
    exact loses_bounded .ge (.string zeroText) (by simp [Holds]) zero converted (conversions.same _ _)
      (text bytes above) rfl
  | utf8 => cases mixed

theorem loses_utf8 (mixed : prunesSafely .utf8 literalType = false) : LosesSome conversions .utf8 literalType := by
  have reflexive : ∀ byte, conversions.cellLe (.text [byte]) (.text [byte]) = true := by
    simp [Conversions.cellLe, bytesLe]
  cases literalType with
  | bool =>
    obtain ⟨bytes,converted,above⟩ := conversions.boolean_utf8 false
    have below : bytesLe bytes [0] = false := by
      rw [Bool.eq_false_iff]
      exact fun low => Bool.noConfusion (bytesLe_trans _ _ _ above low)
    have compared : comparisonHolds conversions.cellLe .lt (.text [0]) (.text bytes) = true :=
      congrArg not below
    exact loses_bounded .lt (.bool false) (by simp [Holds]) (reflexive 0) (conversions.same _ _) converted
      compared rfl
  | int =>
    exact loses_bounded .eq (.int 0) (by simp [Holds]) (reflexive 48) conversions.utf8_int64
      (conversions.same _ _) rfl rfl
  | date =>
    obtain ⟨bytes,converted,above⟩ := conversions.date32_utf8
    exact loses_bounded .le (.date 0) (by simp [Holds]) (reflexive 48) (conversions.same _ _) converted
      above rfl
  | _ => cases mixed

theorem loses_date (coded : type = .float32 ∨ type = .float64 ∨ type = .timestamp) :
    LosesSome conversions type .date := by
  have floats : conversions.cellLe (.float32 0) (.float32 0) = true := conversions.float32Le_zero
  have doubles : conversions.cellLe (.float64 0) (.float64 0) = true := conversions.float64Le_zero
  obtain ⟨bits,converted,above⟩ := conversions.date32_float64
  have compared : comparisonHolds conversions.cellLe .lt (.float64 0) (.float64 bits) = true :=
    congrArg not above
  rcases coded with rfl | rfl | rfl
  · exact loses_bounded .lt (.date 0) (by simp [Holds]) floats conversions.float32_float64 converted compared rfl
  · exact loses_bounded .lt (.date 0) (by simp [Holds]) doubles (conversions.same _ _) converted compared rfl
  · exact loses_bounded .lt (.date 1) (show Holds _ (.int 1) by simp [Holds]) rfl (conversions.same _ _)
      (conversions.date32_timestamp 1) rfl rfl

theorem mixed_loses (mixed : prunesSafely type literalType = false) : LosesSome conversions type literalType := by
  cases literalType with
  | string => exact loses_string mixed
  | bool =>
    cases type with
    | utf8 => exact loses_utf8 mixed
    | decimal128 precision scale =>
      exact loses_partitioned (.bool false) rfl rfl rfl (conversions.boolean_decimal precision scale)
    | _ => cases mixed
  | decimal =>
    cases type with
    | decimal128 precision scale =>
      obtain ⟨p,s,wider⟩ := widerType_decimal precision scale 2 1
      exact loses_partitioned (.decimal 0 2 1) wider rfl rfl (conversions.decimal_decimal 2 1 p s)
    | _ => cases mixed
  | int =>
    cases type with
    | utf8 => exact loses_utf8 mixed
    | _ => cases mixed
  | date =>
    cases type with
    | utf8 => exact loses_utf8 mixed
    | float32 | float64 | timestamp => exact loses_date (by simp)
    | _ => cases mixed
  | datetime => cases type <;> cases mixed

end

/-! ### A run of the tests -/

def firstDayText : List Nat :=
  [49, 57, 55, 48, 45, 48, 49, 45, 48, 49]

/-- Conversions of the whole numbers, dates and truth values, and of the texts that stand for
zero. -/
def sampleConvert (source target : DataType) (cell : Cell) : Option Cell :=
  if source = target then some cell
  else
    match source, target, cell with
    | .boolean, .int64, .bool value => some (.int (boolInt value))
    | .boolean, .decimal128 _ scale, .bool value => some (.int (boolInt value * 10 ^ scale))
    | .boolean, .utf8, .bool value => some (.text (if value then [49] else [48]))
    | .int32, .int64, .int value => some (.int value)
    | .date32, .int64, .int days => some (.int days)
    | .timestamp, .int64, .int micros => some (.int micros)
    | .date32, .timestamp, .int days => some (.int (days * 86400000000))
    | .decimal128 _ scale, .decimal128 _ scale', .int unscaled =>
      some (.int (unscaled * 10 ^ scale' / 10 ^ scale))
    | .utf8, .int64, .text [48] => some (.int 0)
    | .utf8, .float64, .text [48] => some (.float64 0)
    | .utf8, .decimal128 _ _, .text [48] => some (.int 0)
    | .float32, .float64, .float32 0 => some (.float64 0)
    | .date32, .float64, .int 0 => some (.float64 4716053415824719872)
    | .date32, .utf8, .int 0 => some (.text firstDayText)
    | .timestamp, .utf8, .int 0 => some (.text (firstDayText ++ [32, 48, 48, 58, 48, 48, 58, 48, 48]))
    | _, _, _ => none

def sampleConversions : Conversions where
  convert := sampleConvert
  float32Le a b := decide (a ≤ b)
  float64Le a b := decide (a ≤ b)
  same type cell := if_pos rfl
  boolean_int64 _ := rfl
  int32_int64 _ := rfl
  date32_int64 _ := rfl
  timestamp_int64 _ := rfl
  date32_timestamp _ := rfl
  date32_boolean _ := rfl
  date32_decimal _ _ _ := rfl
  utf8_int64 := rfl
  utf8_float64 := rfl
  utf8_decimal _ _ := rfl
  boolean_decimal _ _ := by simp [sampleConvert, boolInt]
  decimal_decimal _ _ _ _ := by simp [sampleConvert]
  float32_float64 := rfl
  float32Le_zero := rfl
  float64Le_zero := rfl
  date32_float64 := ⟨_, rfl, rfl⟩
  boolean_utf8 value := by cases value <;> exact ⟨_, rfl, rfl⟩
  date32_utf8 := ⟨_, rfl, rfl⟩
  timestamp_utf8 := ⟨_, rfl, rfl⟩

end NovaRocks.Codegen.Pruning
