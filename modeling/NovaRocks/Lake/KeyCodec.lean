import NovaRocks.Store.OrderedCodes
import NovaRocks.Store.LittleEndian
import NovaRocks.Store.Chains
import NovaRocks.Store.Checked

/-!
Primary keys as bytes. The publish encodes the keys of a segment row by row: a single key
column as the bytes of its values, several columns as words with the sign bit turned over and
escaped strings, so that the bytes have the order of the keys. A write encodes the keys it
deletes as the payload of a delete file, with code of its own for the keys of several columns;
the publish decodes the payload.
-/
namespace NovaRocks.Lake
open NovaRocks.Store

abbrev Bytes := List UInt8

inductive KeyType where
  | boolean
  | int8
  | int16
  | int32
  | int64
  | date32
  | timestampMicrosecond (timezone : Option String)
  | utf8
  | binary
  | decimal128 (precision : Nat) (scale : Int)
  | other (name : String)

namespace KeyType

def Cell : KeyType → Type
  | boolean => Bool
  | int8 => BitVec (8 * 1)
  | int16 => BitVec (8 * 2)
  | int32 => BitVec (8 * 4)
  | int64 => BitVec (8 * 8)
  | date32 => BitVec (8 * 4)
  | timestampMicrosecond _ => BitVec (8 * 8)
  | utf8 => Bytes
  | binary => Bytes
  | decimal128 _ _ => BitVec (8 * 16)
  | other _ => Unit

def debug : KeyType → String
  | boolean => "Boolean"
  | int8 => "Int8"
  | int16 => "Int16"
  | int32 => "Int32"
  | int64 => "Int64"
  | date32 => "Date32"
  | timestampMicrosecond none => "Timestamp(Microsecond, None)"
  | timestampMicrosecond (some timezone) => "Timestamp(Microsecond, Some(\"" ++ timezone ++ "\"))"
  | utf8 => "Utf8"
  | binary => "Binary"
  | decimal128 precision scale => s!"Decimal128({precision}, {scale})"
  | other name => name

end KeyType

def KeyRow : List KeyType → Type
  | [] => Unit
  | t :: ts => Option t.Cell × KeyRow ts

def KeyRow.first {t : KeyType} {ts : List KeyType} (row : KeyRow (t :: ts)) : Option t.Cell :=
  row.1

structure KeyBatch where
  types : List KeyType
  rows : List (KeyRow types)

/-! ### Bytes of numbers -/

def boolByte (value : Bool) : UInt8 :=
  if value then 1 else 0

def leWord (count number : Nat) : Bytes :=
  (leBytes count number).map UInt8.ofNat

def toLeBytes (count : Nat) (value : BitVec (8 * count)) : Bytes :=
  leWord count value.toNat

def fromLeBytes (bytes : Bytes) : Nat :=
  fromLe (bytes.map UInt8.toNat)

def u32Max : Nat :=
  2 ^ 32 - 1

def usizeMax : Nat :=
  2 ^ 64 - 1

/-! ### Keys of stored rows -/

def encodeSliceKeyBytes (value : Bytes) (isLastCol : Bool) : Bytes :=
  if isLastCol then value else escaped 0 1 value

def encodePrimaryKeyCell (rowIdx : Nat) (isLastCol singleKeyMode : Bool) :
    (t : KeyType) → Option t.Cell → Except String Bytes
  | t, none => .error s!"primary key row contains NULL value at row_idx={rowIdx} for type {t.debug}"
  | .boolean, some value => .ok [boolByte value]
  | .int8, some value => .ok (if singleKeyMode then toLeBytes 1 value else signedBe 1 value)
  | .int16, some value => .ok (if singleKeyMode then toLeBytes 2 value else signedBe 2 value)
  | .int32, some value => .ok (if singleKeyMode then toLeBytes 4 value else signedBe 4 value)
  | .int64, some value => .ok (if singleKeyMode then toLeBytes 8 value else signedBe 8 value)
  | .date32, some value => .ok (if singleKeyMode then toLeBytes 4 value else signedBe 4 value)
  | .timestampMicrosecond _, some value => .ok (if singleKeyMode then toLeBytes 8 value else signedBe 8 value)
  | .utf8, some value => .ok (if singleKeyMode then value else encodeSliceKeyBytes value isLastCol)
  | .binary, some value => .ok (if singleKeyMode then value else encodeSliceKeyBytes value isLastCol)
  | .decimal128 _ _, some value => .ok (if singleKeyMode then toLeBytes 16 value else signedBe 16 value)
  | .other name, some _ => .error ("unsupported primary key output type in v1 publish path: " ++ name)

def encodePrimaryKeyRow (rowIdx : Nat) (singleKeyMode : Bool) : (ts : List KeyType) → KeyRow ts →
    Except String Bytes
  | [], _ => .ok []
  | t :: ts, (cell, rest) => do
    let first ← encodePrimaryKeyCell rowIdx ts.isEmpty singleKeyMode t cell
    let more ← encodePrimaryKeyRow rowIdx singleKeyMode ts rest
    .ok (first ++ more)

def encodePrimaryKeysFromBatch (batch : KeyBatch) : Except String (List Bytes) :=
  batch.rows.zipIdx.mapM fun (row, rowIdx) =>
    encodePrimaryKeyRow rowIdx (batch.types.length == 1) batch.types row

/-! ### Keys to delete -/

def encodeCompositeKeyCell (rowIdx colIdx : Nat) (isLastCol : Bool) :
    (t : KeyType) → Option t.Cell → Except String Bytes
  | t, none => .error (s!"delete-key batch contains NULL key value at row_idx={rowIdx}" ++
      s!" col_idx={colIdx} type={t.debug}")
  | .boolean, some value => .ok [boolByte value]
  | .int8, some value => .ok (signedBe 1 value)
  | .int16, some value => .ok (signedBe 2 value)
  | .int32, some value => .ok (signedBe 4 value)
  | .int64, some value => .ok (signedBe 8 value)
  | .date32, some value => .ok (signedBe 4 value)
  | .timestampMicrosecond _, some value => .ok (signedBe 8 value)
  | .utf8, some value => .ok (encodeSliceKeyBytes value isLastCol)
  | .binary, some value => .ok (encodeSliceKeyBytes value isLastCol)
  | .decimal128 _ _, some value => .ok (signedBe 16 value)
  | .other name, some _ => .error ("unsupported key column type while encoding composite delete payload: " ++
      s!"col_idx={colIdx} type={name}")

def encodeCompositeRow (rowIdx : Nat) : (colIdx : Nat) → (ts : List KeyType) → KeyRow ts →
    Except String Bytes
  | _, [], _ => .ok []
  | colIdx, t :: ts, (cell, rest) => do
    let first ← encodeCompositeKeyCell rowIdx colIdx ts.isEmpty t cell
    let more ← encodeCompositeRow rowIdx (colIdx + 1) ts rest
    .ok (first ++ more)

def encodeCompositeKeys (batch : KeyBatch) : Except String (List Bytes) :=
  batch.rows.zipIdx.mapM fun (row, rowIdx) => encodeCompositeRow rowIdx 0 batch.types row

def presentCells {γ : Type} (cells : List (Option γ)) : Except String (List γ) :=
  cells.zipIdx.mapM fun (cell, rowIdx) =>
    match cell with
    | none => .error s!"delete-key batch contains NULL key value at row_idx={rowIdx} col_idx=0"
    | some value => .ok value

def encodeFixedWidthPayload {γ : Type} (width : Nat) (typeName : String) (writeOne : γ → Bytes)
    (cells : List (Option γ)) : Except String Bytes :=
  let valueBytes := cells.length * width
  if usizeMax < valueBytes then
    .error s!"{typeName} delete-key payload size overflow: rows={cells.length}"
  else if u32Max < valueBytes then
    .error s!"{typeName} delete-key payload exceeds 4GiB: payload_size={valueBytes}"
  else do
    let values ← presentCells cells
    .ok (leWord 4 valueBytes ++ values.flatMap writeOne)

def encodeBinaryPayload (encodedRows : List Bytes) : Except String Bytes :=
  let totalBytes := encodedRows.flatten.length
  let offsetsBytes := (encodedRows.length + 1) * 4
  if usizeMax < totalBytes then .error "binary delete-key payload bytes size overflow"
  else if u32Max < totalBytes then
    .error s!"binary delete-key payload bytes exceed 4GiB: bytes_size={totalBytes}"
  else if usizeMax < encodedRows.length + 1 then .error "binary delete-key payload offsets count overflow"
  else if usizeMax < offsetsBytes then .error "binary delete-key payload offsets size overflow"
  else if u32Max < offsetsBytes then
    .error s!"binary delete-key payload offsets exceed 4GiB: offsets_size={offsetsBytes}"
  else
    -- The offsets of the rows fit because the size of all rows does.
    .ok (leWord 4 totalBytes ++ encodedRows.flatten ++ leWord 4 offsetsBytes ++
      (offsetsFrom 0 (encodedRows.map List.length)).flatMap (leWord 4))

def encodeSingleKeyPayload : (t : KeyType) → List (Option t.Cell) → Except String Bytes
  | .boolean, cells => encodeFixedWidthPayload 1 "BOOLEAN" (fun value => [boolByte value]) cells
  | .int8, cells => encodeFixedWidthPayload 1 "INT8" (toLeBytes 1) cells
  | .int16, cells => encodeFixedWidthPayload 2 "INT16" (toLeBytes 2) cells
  | .int32, cells => encodeFixedWidthPayload 4 "INT32" (toLeBytes 4) cells
  | .int64, cells => encodeFixedWidthPayload 8 "INT64" (toLeBytes 8) cells
  | .date32, cells => encodeFixedWidthPayload 4 "DATE32" (toLeBytes 4) cells
  | .timestampMicrosecond _, cells => encodeFixedWidthPayload 8 "TIMESTAMP_MICROSECOND" (toLeBytes 8) cells
  | .decimal128 _ _, cells => encodeFixedWidthPayload 16 "DECIMAL128" (toLeBytes 16) cells
  | .utf8, cells => do
    let rows ← presentCells cells
    encodeBinaryPayload rows
  | .binary, cells => do
    let rows ← presentCells cells
    encodeBinaryPayload rows
  | .other name, _ => .error ("unsupported delete-key column type for single primary key: " ++ name)

def encodeDeleteKeysPayload : KeyBatch → Except String Bytes
  | ⟨[], _⟩ => .error "delete-key batch has no key column"
  | ⟨[t], rows⟩ => encodeSingleKeyPayload t (rows.map KeyRow.first)
  | ⟨t :: t' :: ts, rows⟩ => do
    let encodedRows ← encodeCompositeKeys ⟨t :: t' :: ts, rows⟩
    encodeBinaryPayload encodedRows

/-! ### Reading a payload -/

def readU32 (payload : Bytes) (position : Nat) : Nat :=
  fromLeBytes ((payload.drop position).take 4)

def decodeFixedColumnPayload (payload : Bytes) (width : Nat) (typeName : String) : Except String Bytes := do
  guardThat (4 ≤ payload.length)
    s!"invalid {typeName} delete payload: too small (payload_size={payload.length})"
  let size := readU32 payload 0
  guardThat (payload.length = 4 + size)
    (s!"invalid {typeName} delete payload size mismatch: declared_size={size}" ++
      s!" payload_size={payload.length}")
  guardThat (size % width = 0)
    s!"invalid {typeName} delete payload element alignment: declared_size={size} elem_width={width}"
  .ok ((payload.drop 4).take size)

/-- Consecutive parts of the given width; a shorter rest is left out. -/
def chunksExact (width : Nat) : Nat → Bytes → List Bytes
  | 0, _ => []
  | count + 1, bytes => bytes.take width :: chunksExact width count (bytes.drop width)

def sliceOffsets (bytes : Bytes) (prev : Nat) : Nat → List Nat → Except String (List Bytes)
  | _, [] => .ok []
  | idx, stop :: offsets => do
    guardThat (prev ≤ stop && stop ≤ bytes.length)
      (s!"invalid binary delete payload offset order: index={idx} prev={prev} end={stop}" ++
        s!" bytes_size={bytes.length}")
    let rest ← sliceOffsets bytes stop (idx + 1) offsets
    .ok ((bytes.drop prev).take (stop - prev) :: rest)

def decodeOffsets (bytes : Bytes) (offsets : List Nat) : Except String (List Bytes) := do
  guardThat (offsets.head? = some 0)
    s!"invalid binary delete payload offsets: first offset must be 0, got={offsets.headD 0}"
  guardThat (offsets.getLast? = some bytes.length)
    (s!"invalid binary delete payload offsets: last offset mismatch, expected={bytes.length}" ++
      s!" actual={offsets.getLastD 0}")
  sliceOffsets bytes 0 1 offsets.tail

def decodeBinaryPayload (payload : Bytes) : Except String (List Bytes) := do
  guardThat (8 ≤ payload.length)
    s!"invalid binary delete payload: too small (payload_size={payload.length})"
  let bytesSize := readU32 payload 0
  let bytesEnd := 4 + bytesSize
  guardThat (bytesEnd + 4 ≤ payload.length)
    (s!"invalid binary delete payload bytes section out of range: bytes_size={bytesSize}" ++
      s!" payload_size={payload.length}")
  let offsetsSize := readU32 payload bytesEnd
  let offsetsStart := bytesEnd + 4
  guardThat (offsetsStart + offsetsSize = payload.length)
    (s!"invalid binary delete payload offsets section mismatch: offsets_size={offsetsSize}" ++
      s!" payload_size={payload.length}")
  guardThat (offsetsSize % 4 = 0)
    s!"invalid binary delete payload offsets alignment: offsets_size={offsetsSize}"
  guardThat (offsetsSize / 4 ≠ 0) "invalid binary delete payload offsets: empty offsets"
  decodeOffsets ((payload.drop 4).take bytesSize)
    ((List.range (offsetsSize / 4)).map fun i => readU32 payload (offsetsStart + i * 4))

def decodeFixedKeys (payload : Bytes) (width : Nat) (typeName : String) : Except String (List Bytes) := do
  let raw ← decodeFixedColumnPayload payload width typeName
  .ok (chunksExact width (raw.length / width) raw)

def decodeDeleteKeysPayload (payload : Bytes) : List KeyType → Except String (List Bytes)
  | [] => .error "invalid key output schema for delete decode: no key fields"
  | _ :: _ :: _ => decodeBinaryPayload payload
  | [.boolean] => do
    let raw ← decodeFixedColumnPayload payload 1 "BOOLEAN"
    .ok (raw.map fun byte => [if byte ≠ 0 then 1 else 0])
  | [.int8] => decodeFixedKeys payload 1 "INT8"
  | [.int16] => decodeFixedKeys payload 2 "INT16"
  | [.int32] => decodeFixedKeys payload 4 "INT32"
  | [.int64] => decodeFixedKeys payload 8 "INT64"
  | [.date32] => decodeFixedKeys payload 4 "DATE32"
  | [.timestampMicrosecond _] => decodeFixedKeys payload 8 "TIMESTAMP_MICROSECOND"
  | [.utf8] => decodeBinaryPayload payload
  | [.binary] => decodeBinaryPayload payload
  | [.decimal128 _ _] => decodeFixedKeys payload 16 "DECIMAL128"
  | [.other name] => .error ("unsupported key column type while decoding op_write.dels: " ++ name)

end NovaRocks.Lake
