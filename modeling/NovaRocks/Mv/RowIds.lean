import NovaRocks.Lake.ManagedWrite
import NovaRocks.Store.LittleEndian

/-!
Row ids of an aggregate view. Each group key cell is written as the name of its type and
its bytes, in hex, and the cells are joined by bars. Keys whose cells are of the types of
the columns have row ids of their own.
-/
namespace NovaRocks.Mv
open NovaRocks.Store NovaRocks.Lake List

inductive GroupKeyType where
  | boolean
  | int8
  | int16
  | int32
  | date32
  | int64
  | timestampMicrosecond
  | utf8
  | decimal128 (precision : Nat) (scale : Int)

namespace GroupKeyType

def typeName : GroupKeyType → String
  | boolean => "boolean"
  | int8 => "int8"
  | int16 => "int16"
  | int32 => "int32"
  | date32 => "date32"
  | int64 => "int64"
  | timestampMicrosecond => "timestamp_microsecond"
  | utf8 => "utf8"
  | decimal128 precision scale => "decimal128(" ++ toString precision ++ "," ++ toString scale ++ ")"

def byteCount : GroupKeyType → Nat
  | boolean | utf8 => 0
  | int8 => 1
  | int16 => 2
  | int32 | date32 => 4
  | int64 | timestampMicrosecond => 8
  | decimal128 _ _ => 16

def Holds (type : GroupKeyType) : Value → Prop
  | .null => True
  | .bool _ => type = boolean
  | .int i => -((256 ^ type.byteCount / 2 : Nat) : Int) ≤ i ∧ i < (256 ^ type.byteCount / 2 : Nat)
  | .text _ => type = utf8

end GroupKeyType

def utf8Bytes (s : String) : List Nat :=
  s.toByteArray.data.toList.map UInt8.toNat

def valueBytes (type : GroupKeyType) : Value → List Nat
  | .null => []
  | .bool b => [b.toNat]
  | .int i => signedBytes type.byteCount i
  | .text s => utf8Bytes s

def encodedCell (type : GroupKeyType) (value : Value) : List Nat :=
  utf8Bytes type.typeName ++ utf8Bytes ":" ++
    if value = .null then utf8Bytes "N" else utf8Bytes "V:" ++ valueBytes type value

def hexEncode (bytes : List Nat) : String :=
  .ofList (bytes.flatMap fun byte => [Nat.digitChar (byte / 16), Nat.digitChar (byte % 16)])

def rowIdCells (types : List GroupKeyType) (key : Tuple) : List String :=
  zipWith (fun type value => hexEncode (encodedCell type value)) types key

def rowIdOf (types : List GroupKeyType) (key : Tuple) : String :=
  "|".intercalate (rowIdCells types key)

theorem utf8Bytes_inj (same : utf8Bytes s = utf8Bytes t) : s = t := by
  have bytes := map_injective_iff.mpr (fun _ _ => UInt8.toNat_inj.mp) same
  exact String.toByteArray_inj.mp (ByteArray.ext (Array.toList_inj.mp bytes))

theorem utf8Bytes_small : ∀ byte ∈ utf8Bytes s, byte < 256 := by
  rw [utf8Bytes, forall_mem_map]
  exact fun byte _ => byte.toNat_lt

theorem leBytes_small (count number : Nat) : ∀ byte ∈ leBytes count number, byte < 256 := by
  induction count generalizing number with
  | zero => simp [leBytes]
  | succ count ih => exact forall_mem_cons.mpr ⟨Nat.mod_lt _ (by decide),ih _⟩

theorem encodedCell_small (type : GroupKeyType) (value : Value) : ∀ byte ∈ encodedCell type value, byte < 256 := by
  have cell : ∀ byte ∈ valueBytes type value, byte < 256 := by
    cases value with
    | null => simp [valueBytes]
    | bool b => cases b <;> simp [valueBytes]
    | int i => exact leBytes_small _ _
    | text s => exact utf8Bytes_small
  simp only [encodedCell, forall_mem_append]
  refine ⟨⟨utf8Bytes_small,utf8Bytes_small⟩,?_⟩
  split
  · exact utf8Bytes_small
  · exact forall_mem_append.mpr ⟨utf8Bytes_small,cell⟩

theorem valueBytes_inj (one : type.Holds v) (other : type.Holds w) (set : v ≠ .null) (set' : w ≠ .null)
    (same : valueBytes type v = valueBytes type w) : v = w := by
  cases v <;> cases w <;> simp only [GroupKeyType.Holds, valueBytes, ne_eq, not_true_eq_false] at *
  case bool.bool b b' => cases b <;> cases b' <;> simp_all
  case int.int i i' =>
    rw [← ofSignedBytes_signedBytes one.1 one.2, same, ofSignedBytes_signedBytes other.1 other.2]
  case text.text => rw [utf8Bytes_inj same]
  -- a type of numbers has bytes, the others have none
  all_goals
    subst type
    simp [GroupKeyType.byteCount] at *
    try omega

theorem encodedCell_inj (one : type.Holds v) (other : type.Holds w)
    (same : encodedCell type v = encodedCell type w) : v = w := by
  have rest := append_cancel_left same
  by_cases unset : v = .null <;> by_cases unset' : w = .null
  · rw [unset, unset']
  · rw [if_pos unset, if_neg unset'] at rest
    cases rest
  · rw [if_neg unset, if_pos unset'] at rest
    cases rest
  · rw [if_neg unset, if_neg unset'] at rest
    exact valueBytes_inj one other unset unset' (append_cancel_left rest)

theorem digitChar_inj : ∀ a < 16, ∀ b < 16, Nat.digitChar a = Nat.digitChar b → a = b := by
  decide

theorem digitChar_ne_bar : ∀ a < 16, Nat.digitChar a ≠ '|' := by
  decide

theorem hexEncode_inj (small : ∀ byte ∈ one, byte < 256) (small' : ∀ byte ∈ other, byte < 256)
    (same : hexEncode one = hexEncode other) : one = other := by
  have digits := String.ofList_injective same
  clear same
  induction one generalizing other with
  | nil =>
    cases other with
    | nil => rfl
    | cons => cases digits
  | cons a one ih =>
    cases other with
    | nil => cases digits
    | cons b other =>
      obtain ⟨a256,rest⟩ := forall_mem_cons.mp small
      obtain ⟨b256,rest'⟩ := forall_mem_cons.mp small'
      simp only [flatMap_cons, cons_append, nil_append, cons.injEq] at digits
      have high := digitChar_inj _ (by omega) _ (by omega) digits.1
      have low := digitChar_inj _ (by omega) _ (by omega) digits.2.1
      rw [ih rest rest' digits.2.2]
      congr 1
      omega

theorem bar_not_mem_hexEncode (small : ∀ byte ∈ bytes, byte < 256) : '|' ∉ (hexEncode bytes).toList := by
  rw [hexEncode, String.toList_ofList, mem_flatMap]
  rintro ⟨byte,member,digit⟩
  have bound := small byte member
  rcases mem_pair.mp digit with high | low
  · exact digitChar_ne_bar _ (by omega) high.symm
  · exact digitChar_ne_bar _ (by omega) low.symm

theorem rowIdCells_inj (one : Forall₂ GroupKeyType.Holds types key) (other : Forall₂ GroupKeyType.Holds types key')
    (same : rowIdCells types key = rowIdCells types key') : key = key' := by
  induction one generalizing key' with
  | nil => cases other; rfl
  | cons first _ ih =>
    obtain _ | ⟨first',later⟩ := other
    obtain ⟨cell,rest⟩ := cons.inj same
    rw [encodedCell_inj first first' (hexEncode_inj (encodedCell_small _ _) (encodedCell_small _ _) cell),
      ih later rest]

theorem splitOn_rowIdOf (some' : rowIdCells types key ≠ []) :
    (rowIdOf types key).toList.splitOn '|' = (rowIdCells types key).map String.toList := by
  rw [rowIdOf, String.toList_intercalate]
  refine splitOn_intercalate '|' (forall_mem_map.mpr fun cell member => ?_) (by simpa using some')
  obtain ⟨i,_,rfl⟩ := getElem_of_mem member
  simp only [rowIdCells, getElem_zipWith]
  exact bar_not_mem_hexEncode (encodedCell_small _ _)

/-- Keys of the columns' types with the same row id are the same. -/
theorem rowIdOf_inj (one : Forall₂ GroupKeyType.Holds types key) (other : Forall₂ GroupKeyType.Holds types key')
    (same : rowIdOf types key = rowIdOf types key') : key = key' := by
  cases types with
  | nil => cases one; cases other; rfl
  | cons type types =>
    apply rowIdCells_inj one other
    obtain _ | ⟨_,_⟩ := one
    obtain _ | ⟨_,_⟩ := other
    apply map_injective_iff.mpr fun _ _ => String.toList_injective
    rw [← splitOn_rowIdOf (by simp [rowIdCells]), ← splitOn_rowIdOf (by simp [rowIdCells]), same]

end NovaRocks.Mv
