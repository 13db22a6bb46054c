import NovaRocks.Lake.KeyPayload

/-!
Rows without NULLs. The bytes of a key are one function of its values, computed by both
encoders; equal bytes are equal keys, and the bytes of keys of several columns are ordered as
the keys are, column by column.
-/
namespace NovaRocks.Lake
open NovaRocks.Store List

namespace KeyType

def supported : KeyType → Bool
  | other _ => false
  | _ => true

def rawBytes : (t : KeyType) → t.Cell → Bytes
  | boolean, value => [boolByte value]
  | int8, value => toLeBytes 1 value
  | int16, value => toLeBytes 2 value
  | int32, value => toLeBytes 4 value
  | int64, value => toLeBytes 8 value
  | date32, value => toLeBytes 4 value
  | timestampMicrosecond _, value => toLeBytes 8 value
  | utf8, value => value
  | binary, value => value
  | decimal128 _ _, value => toLeBytes 16 value
  | other _, _ => []

def orderedBytes (isLastCol : Bool) : (t : KeyType) → t.Cell → Bytes
  | boolean, value => [boolByte value]
  | int8, value => signedBe 1 value
  | int16, value => signedBe 2 value
  | int32, value => signedBe 4 value
  | int64, value => signedBe 8 value
  | date32, value => signedBe 4 value
  | timestampMicrosecond _, value => signedBe 8 value
  | utf8, value => encodeSliceKeyBytes value isLastCol
  | binary, value => encodeSliceKeyBytes value isLastCol
  | decimal128 _ _, value => signedBe 16 value
  | other _, _ => []

def bytesLess (x y : Bytes) : Prop :=
  x < y

/-- The order of a column's values: numbers are signed, strings are compared by their bytes. -/
def less : (t : KeyType) → t.Cell → t.Cell → Prop
  | boolean, x, y => (x : Bool) = false ∧ (y : Bool) = true
  | int8, x, y => BitVec.toInt x < BitVec.toInt y
  | int16, x, y => BitVec.toInt x < BitVec.toInt y
  | int32, x, y => BitVec.toInt x < BitVec.toInt y
  | int64, x, y => BitVec.toInt x < BitVec.toInt y
  | date32, x, y => BitVec.toInt x < BitVec.toInt y
  | timestampMicrosecond _, x, y => BitVec.toInt x < BitVec.toInt y
  | utf8, x, y => bytesLess x y
  | binary, x, y => bytesLess x y
  | decimal128 _ _, x, y => BitVec.toInt x < BitVec.toInt y
  | other _, _, _ => False

def width? : KeyType → Option Nat
  | boolean => some 1
  | int8 => some 1
  | int16 => some 2
  | int32 => some 4
  | int64 => some 8
  | date32 => some 4
  | timestampMicrosecond _ => some 8
  | decimal128 _ _ => some 16
  | utf8 => none
  | binary => none
  | other _ => none

end KeyType

def KeyValues : List KeyType → Type
  | [] => Unit
  | t :: ts => t.Cell × KeyValues ts

namespace KeyValues

def first {t : KeyType} {ts : List KeyType} (values : KeyValues (t :: ts)) : t.Cell :=
  values.1

def row : {ts : List KeyType} → KeyValues ts → KeyRow ts
  | [], _ => ()
  | _ :: _, (value, rest) => (some value, row rest)

def compositeBytes : {ts : List KeyType} → KeyValues ts → Bytes
  | [], _ => []
  | t :: ts, (value, rest) => t.orderedBytes ts.isEmpty value ++ compositeBytes rest

def keyBytes : {ts : List KeyType} → KeyValues ts → Bytes
  | [t], (value, _) => t.rawBytes value
  | _, values => compositeBytes values

def less : {ts : List KeyType} → KeyValues ts → KeyValues ts → Prop
  | [], _, _ => False
  | t :: _, (x, xs), (y, ys) => t.less x y ∨ x = y ∧ less xs ys

end KeyValues

/-! ### Order and equality of the bytes -/

theorem boolByte_lt_iff (x y : Bool) : boolByte x < boolByte y ↔ x = false ∧ y = true := by
  revert x y
  decide

theorem boolByte_inj (x y : Bool) : boolByte x = boolByte y ↔ x = y := by
  revert x y
  decide

theorem boolByte_ordered :
    OrderedCode (fun x y : Bool => x = false ∧ y = true) (fun value => [boolByte value]) := by
  apply OrderedCode.of_length
  · intro x y
    rfl
  · intro x y
    rw [cons_lt_cons_iff, boolByte_lt_iff]
    simp
  · intro x y same
    rwa [cons.injEq, and_iff_left rfl, boolByte_inj] at same

theorem escapedSlice_ordered :
    OrderedCode (fun x y : Bytes => x < y) (fun value => encodeSliceKeyBytes value false) := by
  apply escaped_ordered
  · intro a b less
    exact UInt8.lt_asymm less
  · intro symbol other
    exact UInt8.pos_iff_ne_zero.mpr other
  · decide

theorem orderedBytes_ordered (t : KeyType) (known : t.supported = true) :
    OrderedCode t.less (t.orderedBytes false) := by
  cases t with
  | boolean => exact boolByte_ordered
  | int8 => exact signedBe_ordered 1 (by decide)
  | int16 => exact signedBe_ordered 2 (by decide)
  | int32 | date32 => exact signedBe_ordered 4 (by decide)
  | int64 | timestampMicrosecond => exact signedBe_ordered 8 (by decide)
  | utf8 | binary => exact escapedSlice_ordered
  | decimal128 precision scale => exact signedBe_ordered 16 (by decide)
  | other name => cases known

theorem lastBytes_ordered (t : KeyType) (known : t.supported = true) (x y : t.Cell) :
    (t.orderedBytes true x < t.orderedBytes true y ↔ t.less x y) ∧
      (t.orderedBytes true x = t.orderedBytes true y ↔ x = y) := by
  have ordered := orderedBytes_ordered t known
  cases t with
  | utf8 | binary => exact ⟨Iff.rfl,Iff.rfl⟩
  | other name => cases known
  | _ => exact ⟨ordered.code_lt_iff (not_lt_nil []) x y,ordered.code_eq_iff x y⟩

theorem compositeBytes_ordered : ∀ (ts : List KeyType), (∀ t ∈ ts, t.supported = true) →
    ∀ a b : KeyValues ts, (a.compositeBytes < b.compositeBytes ↔ a.less b) ∧
      (a.compositeBytes = b.compositeBytes ↔ a = b) := by
  intro ts
  induction ts with
  | nil =>
    intro _ a b
    exact ⟨iff_of_false (not_lt_nil []) id,iff_of_true rfl rfl⟩
  | cons t ts ih =>
    rintro known ⟨x,xs⟩ ⟨y,ys⟩
    have here := known t mem_cons_self
    cases ts with
    | nil =>
      have last := lastBytes_ordered t here x y
      constructor
      · simp only [KeyValues.compositeBytes, KeyValues.less, isEmpty_nil, append_nil, and_false,
          or_false, last]
      · simp only [KeyValues.compositeBytes, isEmpty_nil, append_nil, last]
        exact ⟨fun same => Prod.ext same rfl,fun same => congrArg Prod.fst same⟩
    | cons t' ts =>
      have rest := ih (fun u member => known u (mem_cons_of_mem t member)) xs ys
      have ordered := orderedBytes_ordered t here
      constructor
      · change t.orderedBytes false x ++ _ < t.orderedBytes false y ++ _ ↔ _
        rw [ordered.lt_iff, rest.1]
        exact Iff.rfl
      · change t.orderedBytes false x ++ _ = t.orderedBytes false y ++ _ ↔ _
        rw [ordered.eq_iff, rest.2]
        exact ⟨fun same => Prod.ext same.1 same.2,fun same => ⟨congrArg Prod.fst same,congrArg Prod.snd same⟩⟩

theorem toLeBytes_inj (count : Nat) (x y : BitVec (8 * count)) (same : toLeBytes count x = toLeBytes count y) :
    x = y := by
  have bound : ∀ value : BitVec (8 * count), value.toNat < 256 ^ count := by
    intro value
    have small := value.isLt
    rwa [Nat.pow_mul] at small
  have read := congrArg (fun bytes => fromLe (bytes.map UInt8.toNat)) same
  simp only [toLeBytes, map_toNat_leWord, fromLe_leBytes, Nat.mod_eq_of_lt (bound _)] at read
  exact BitVec.eq_of_toNat_eq read

theorem rawBytes_inj (t : KeyType) (known : t.supported = true) (x y : t.Cell)
    (same : t.rawBytes x = t.rawBytes y) : x = y := by
  cases t with
  | boolean => exact (boolByte_inj x y).mp (cons.inj same).1
  | int8 => exact toLeBytes_inj 1 x y same
  | int16 => exact toLeBytes_inj 2 x y same
  | int32 | date32 => exact toLeBytes_inj 4 x y same
  | int64 | timestampMicrosecond => exact toLeBytes_inj 8 x y same
  | utf8 | binary => exact same
  | decimal128 precision scale => exact toLeBytes_inj 16 x y same
  | other name => cases known

theorem keyBytes_eq_iff (ts : List KeyType) (known : ∀ t ∈ ts, t.supported = true) (a b : KeyValues ts) :
    a.keyBytes = b.keyBytes ↔ a = b := by
  match ts, a, b with
  | [], a, b => exact iff_of_true rfl rfl
  | [t], (x, _), (y, _) =>
    constructor
    · intro same
      exact Prod.ext (rawBytes_inj t (known t mem_cons_self) x y same) rfl
    · intro same
      exact congrArg (fun value => t.rawBytes value.1) same
  | t :: t' :: ts, a, b => exact (compositeBytes_ordered (t :: t' :: ts) known a b).2

end NovaRocks.Lake
