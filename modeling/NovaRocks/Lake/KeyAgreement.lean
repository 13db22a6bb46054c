import NovaRocks.Lake.KeyOrder

/-!
The two encoders agree: the keys read back from the payload of a delete file are the keys the
publish computes for the same rows. A payload whose sizes do not fit into four bytes is not
written.
-/
namespace NovaRocks.Lake
open NovaRocks.Store List
open KeyValues (compositeBytes keyBytes)

/-! ### The publish -/

theorem mapM_zipIdx_ok {α β : Type} {f : α × Nat → Except String β} {g : α → β}
    (done : ∀ x i, f (x, i) = .ok (g x)) (xs : List α) : xs.zipIdx.mapM f = .ok (xs.map g) := by
  rw [mapM_ok (g := g ∘ Prod.fst) fun pair _ => done pair.1 pair.2, ← map_map, zipIdx_map_fst]

theorem encodePrimaryKeyCell_some (rowIdx : Nat) (isLastCol singleKeyMode : Bool) (t : KeyType)
    (known : t.supported = true) (value : t.Cell) :
    encodePrimaryKeyCell rowIdx isLastCol singleKeyMode t (some value) =
      .ok (if singleKeyMode then t.rawBytes value else t.orderedBytes isLastCol value) := by
  cases t with
  | boolean => cases singleKeyMode <;> rfl
  | other name => cases known
  | _ => rfl

theorem encodePrimaryKeyRow_row (rowIdx : Nat) (known : ∀ t ∈ ts, t.supported = true)
    (values : KeyValues ts) : encodePrimaryKeyRow rowIdx false ts values.row = .ok values.compositeBytes := by
  induction ts with
  | nil => rfl
  | cons t ts ih =>
    rw [forall_mem_cons] at known
    have first := encodePrimaryKeyCell_some rowIdx ts.isEmpty false t known.1 values.1
    change (encodePrimaryKeyCell rowIdx ts.isEmpty false t (some values.1) >>= fun first =>
      encodePrimaryKeyRow rowIdx false ts (KeyValues.row values.2) >>= fun more => .ok (first ++ more)) = _
    rw [first, ih known.2 values.2]
    rfl

theorem encodePrimaryKeysFromBatch_row (ts : List KeyType) (known : ∀ t ∈ ts, t.supported = true)
    (values : List (KeyValues ts)) :
    encodePrimaryKeysFromBatch ⟨ts, values.map KeyValues.row⟩ = .ok (values.map keyBytes) := by
  have each : ∀ (value : KeyValues ts) (rowIdx : Nat),
      encodePrimaryKeyRow rowIdx (ts.length == 1) ts value.row = .ok value.keyBytes := by
    intro value rowIdx
    match ts, value with
    | [], value => rfl
    | [t], (x, last) =>
      have first := encodePrimaryKeyCell_some rowIdx true true t (known t mem_cons_self) x
      change (encodePrimaryKeyCell rowIdx true true t (some x) >>= fun first => .ok (first ++ [])) = _
      rw [first]
      change Except.ok (t.rawBytes x ++ []) = _
      rw [append_nil]
      rfl
    | t :: t' :: ts, value => exact encodePrimaryKeyRow_row rowIdx known value
  have all := mapM_zipIdx_ok (f := fun pair => encodePrimaryKeyRow pair.2 (ts.length == 1) ts (KeyValues.row pair.1))
    each values
  rw [encodePrimaryKeysFromBatch, zipIdx_map, mapM_map]
  exact all

/-! ### The payload -/

theorem presentCells_some (values : List γ) : presentCells (values.map some) = .ok values := by
  have all := mapM_zipIdx_ok (f := fun pair : γ × Nat => (.ok pair.1 : Except String γ)) (g := id)
    (fun _ _ => rfl) values
  rw [map_id] at all
  rw [presentCells, zipIdx_map, mapM_map]
  exact all

theorem encodeCompositeRow_row (rowIdx colIdx : Nat) (known : ∀ t ∈ ts, t.supported = true)
    (values : KeyValues ts) : encodeCompositeRow rowIdx colIdx ts values.row = .ok values.compositeBytes := by
  induction ts generalizing colIdx with
  | nil => rfl
  | cons t ts ih =>
    rw [forall_mem_cons] at known
    have first : encodeCompositeKeyCell rowIdx colIdx ts.isEmpty t (some values.1) =
        .ok (t.orderedBytes ts.isEmpty values.1) := by
      cases t with
      | other name => cases known.1
      | _ => rfl
    change (encodeCompositeKeyCell rowIdx colIdx ts.isEmpty t (some values.1) >>= fun first =>
      encodeCompositeRow rowIdx (colIdx + 1) ts (KeyValues.row values.2) >>= fun more => .ok (first ++ more)) = _
    rw [first, ih (colIdx + 1) known.2 values.2]
    rfl

theorem encodeCompositeKeys_row (ts : List KeyType) (known : ∀ t ∈ ts, t.supported = true)
    (values : List (KeyValues ts)) :
    encodeCompositeKeys ⟨ts, values.map KeyValues.row⟩ = .ok (values.map compositeBytes) := by
  have all := mapM_zipIdx_ok (f := fun pair => encodeCompositeRow pair.2 0 ts (KeyValues.row pair.1))
    (fun value rowIdx => encodeCompositeRow_row rowIdx 0 known value) values
  rw [encodeCompositeKeys, zipIdx_map, mapM_map]
  exact all

/-- What a payload gives: the rows' bytes if the sizes fit, and an error if not. -/
def Delivers (encoded : Except String Bytes) (decode : Bytes → Except String (List Bytes)) (fits : Prop)
    (keys : List Bytes) : Prop :=
  (fits → ∃ payload, encoded = .ok payload ∧ decode payload = .ok keys) ∧
    (¬ fits → ∃ message, encoded = .error message)

theorem encodeBinaryPayload_delivers (rows : List Bytes) :
    Delivers (encodeBinaryPayload rows) decodeBinaryPayload (BinaryFits rows) rows :=
  ⟨fun fits => ⟨binaryPayload rows,encodeBinaryPayload_ok fits,decodeBinaryPayload_ok fits⟩,
    encodeBinaryPayload_error⟩

section
variable (width : Nat) (typeName : String) (write : γ → Bytes)

theorem encodeFixedWidthPayload_some (values : List γ) :
    (values.length * width ≤ u32Max → encodeFixedWidthPayload width typeName write (values.map some) =
      .ok (leWord 4 (values.length * width) ++ values.flatMap write)) ∧
    (¬ values.length * width ≤ u32Max →
      ∃ message, encodeFixedWidthPayload width typeName write (values.map some) = .error message) := by
  unfold encodeFixedWidthPayload
  rw [length_map]
  dsimp only
  constructor
  · intro fits
    have wide : u32Max ≤ usizeMax := by decide
    rw [if_neg (by omega), if_neg (by omega), presentCells_some]
    rfl
  · intro large
    split
    · exact ⟨_,rfl⟩
    · rw [if_pos (by omega)]
      exact ⟨_,rfl⟩

theorem encodeFixedWidthPayload_delivers (positive : 0 < width) (sized : ∀ value, (write value).length = width)
    (values : List γ) : Delivers (encodeFixedWidthPayload width typeName write (values.map some))
      (fun payload => decodeFixedKeys payload width typeName) (values.length * width ≤ u32Max)
      (values.map write) := by
  obtain ⟨written,refused⟩ := encodeFixedWidthPayload_some width typeName write values
  exact ⟨fun fits => ⟨_,written fits,decodeFixedKeys_ok typeName positive sized values fits⟩,refused⟩

end

theorem length_toLeBytes (count : Nat) (value : BitVec (8 * count)) : (toLeBytes count value).length = count :=
  length_leWord count value.toNat

theorem encodeBooleans_delivers (values : List Bool) :
    Delivers (encodeFixedWidthPayload 1 "BOOLEAN" (fun value => [boolByte value]) (values.map some))
      (fun payload => decodeDeleteKeysPayload payload [.boolean]) (values.length * 1 ≤ u32Max)
      (values.map fun value => [boolByte value]) := by
  obtain ⟨written,refused⟩ := encodeFixedWidthPayload_some 1 "BOOLEAN" (fun value => [boolByte value]) values
  constructor
  · intro fits
    have raw := @decodeFixedColumnPayload_ok Bool (fun value => [boolByte value]) 1 "BOOLEAN"
      (fun _ => rfl) values fits
    have byte : ∀ value : Bool, (if boolByte value ≠ 0 then (1 : UInt8) else 0) = boolByte value := by
      decide
    have bytes : (values.flatMap fun value => [boolByte value]).map
        (fun byte => [if byte ≠ 0 then (1 : UInt8) else 0]) = values.map fun value => [boolByte value] := by
      simp only [← map_eq_flatMap, map_map, Function.comp_def, byte]
    refine ⟨_,written fits,?_⟩
    change (decodeFixedColumnPayload _ 1 "BOOLEAN" >>= fun raw => .ok (raw.map _)) = _
    rw [raw]
    exact congrArg Except.ok bytes
  · exact refused

/-! ### Agreement -/

def keyWidth? : List KeyType → Option Nat
  | [t] => t.width?
  | _ => none

def PayloadFits {ts : List KeyType} (values : List (KeyValues ts)) : Prop :=
  match keyWidth? ts with
  | some width => values.length * width ≤ u32Max
  | none => BinaryFits (values.map keyBytes)

theorem map_first_row (values : List (KeyValues [t])) :
    (values.map KeyValues.row).map KeyRow.first = (values.map KeyValues.first).map some := by
  rw [map_map, map_map]
  rfl

theorem map_keyBytes_single (values : List (KeyValues [t])) :
    values.map keyBytes = (values.map KeyValues.first).map t.rawBytes := by
  rw [map_map]
  rfl

theorem encodeSlices_delivers (cells : List Bytes) :
    Delivers (presentCells (cells.map some) >>= encodeBinaryPayload) decodeBinaryPayload (BinaryFits cells)
      cells := by
  rw [presentCells_some]
  exact encodeBinaryPayload_delivers cells

theorem encodeSingleKeyPayload_delivers (t : KeyType) (known : t.supported = true) (cells : List t.Cell) :
    Delivers (encodeSingleKeyPayload t (cells.map some)) (fun payload => decodeDeleteKeysPayload payload [t])
      (match t.width? with
        | some width => cells.length * width ≤ u32Max
        | none => BinaryFits (cells.map t.rawBytes)) (cells.map t.rawBytes) := by
  have slices : ∀ rows : List Bytes, rows.map (fun row => row) = rows := map_id'
  cases t with
  | boolean => exact encodeBooleans_delivers cells
  | int8 => exact encodeFixedWidthPayload_delivers 1 "INT8" _ (by decide) (length_toLeBytes 1) cells
  | int16 => exact encodeFixedWidthPayload_delivers 2 "INT16" _ (by decide) (length_toLeBytes 2) cells
  | int32 => exact encodeFixedWidthPayload_delivers 4 "INT32" _ (by decide) (length_toLeBytes 4) cells
  | int64 => exact encodeFixedWidthPayload_delivers 8 "INT64" _ (by decide) (length_toLeBytes 8) cells
  | date32 => exact encodeFixedWidthPayload_delivers 4 "DATE32" _ (by decide) (length_toLeBytes 4) cells
  | timestampMicrosecond timezone =>
    exact encodeFixedWidthPayload_delivers 8 "TIMESTAMP_MICROSECOND" _ (by decide) (length_toLeBytes 8) cells
  | decimal128 precision scale =>
    exact encodeFixedWidthPayload_delivers 16 "DECIMAL128" _ (by decide) (length_toLeBytes 16) cells
  | utf8 =>
    have same : cells.map KeyType.utf8.rawBytes = cells := slices cells
    rw [same]
    exact encodeSlices_delivers cells
  | binary =>
    have same : cells.map KeyType.binary.rawBytes = cells := slices cells
    rw [same]
    exact encodeSlices_delivers cells
  | other name => cases known

theorem encodeDeleteKeysPayload_delivers (ts : List KeyType) (nonempty : ts ≠ [])
    (known : ∀ t ∈ ts, t.supported = true) (values : List (KeyValues ts)) :
    Delivers (encodeDeleteKeysPayload ⟨ts, values.map KeyValues.row⟩)
      (fun payload => decodeDeleteKeysPayload payload ts) (PayloadFits values) (values.map keyBytes) := by
  match ts, values with
  | [], values => exact absurd rfl nonempty
  | [t], values =>
    have single := encodeSingleKeyPayload_delivers t (known t mem_cons_self) (values.map KeyValues.first)
    rw [← map_first_row, ← map_keyBytes_single, length_map] at single
    exact single
  | t :: t' :: ts, values =>
    have rows := encodeCompositeKeys_row (t :: t' :: ts) known values
    change Delivers (encodeCompositeKeys ⟨t :: t' :: ts,values.map KeyValues.row⟩ >>= encodeBinaryPayload) _ _ _
    rw [rows]
    exact encodeBinaryPayload_delivers (values.map compositeBytes)

/-- For rows without NULLs of supported types: the keys of a delete file are those of the publish
as long as its sizes fit, different keys have different bytes, and several columns keep their
order. -/
theorem primary_key_bytes_agree (ts : List KeyType) (nonempty : ts ≠ [])
    (known : ∀ t ∈ ts, t.supported = true) :
    (∀ values : List (KeyValues ts),
      encodePrimaryKeysFromBatch ⟨ts, values.map KeyValues.row⟩ = .ok (values.map keyBytes) ∧
      (PayloadFits values → ∃ payload,
        encodeDeleteKeysPayload ⟨ts, values.map KeyValues.row⟩ = .ok payload ∧
          decodeDeleteKeysPayload payload ts = .ok (values.map keyBytes)) ∧
      (¬ PayloadFits values → ∃ message,
        encodeDeleteKeysPayload ⟨ts, values.map KeyValues.row⟩ = .error message)) ∧
    (∀ a b : KeyValues ts, a.keyBytes = b.keyBytes ↔ a = b) ∧
    (2 ≤ ts.length → ∀ a b : KeyValues ts, a.keyBytes < b.keyBytes ↔ a.less b) := by
  refine ⟨fun values => ?_,keyBytes_eq_iff ts known,fun several a b => ?_⟩
  · exact ⟨encodePrimaryKeysFromBatch_row ts known values,
      encodeDeleteKeysPayload_delivers ts nonempty known values⟩
  · match ts, a, b with
    | t :: t' :: ts, a, b => exact (compositeBytes_ordered (t :: t' :: ts) known a b).1

def shortKey : KeyValues [.utf8, .int32] :=
  ([97], 5#32, ())

def zeroKey : KeyValues [.utf8, .int32] :=
  ([97, 0], -1#32, ())

/-- A string is before the string with one more zero byte, whatever number follows. -/
theorem primary_key_bytes_agree_slices : shortKey.keyBytes < zeroKey.keyBytes := by
  apply ((primary_key_bytes_agree [.utf8, .int32] (by simp) (by simp [KeyType.supported])).2.2 (by decide)
    shortKey zeroKey).mpr
  refine .inl ?_
  change KeyType.bytesLess [97] [97, 0]
  unfold KeyType.bytesLess
  decide

def trueKey : KeyValues [.boolean] :=
  (true, ())

/-- A batch of truth values that is too large for the payload's size field. -/
theorem large_delete_batch_refused :
    ∃ message, encodeDeleteKeysPayload ⟨[.boolean], (List.replicate (2 ^ 32) trueKey).map KeyValues.row⟩ =
      .error message := by
  have large : ¬ PayloadFits (List.replicate (2 ^ 32) trueKey) := by
    change ¬ (List.replicate (2 ^ 32) trueKey).length * 1 ≤ u32Max
    rw [length_replicate]
    decide
  exact (encodeDeleteKeysPayload_delivers [.boolean] (by simp) (by simp [KeyType.supported]) _).2 large

end NovaRocks.Lake
