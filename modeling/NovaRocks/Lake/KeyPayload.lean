import NovaRocks.Lake.KeyCodec

/-!
What is read from the payload of a delete file: the rows that were written, for columns of a
fixed width and for rows of bytes, as long as the sizes fit into four bytes.
-/
namespace NovaRocks.Lake
open NovaRocks.Store List

theorem guardThat_pass (holds : condition = true)
    (next : Unit → Except String β) : (guardThat condition message >>= next) = next () := by
  rw [holds]
  rfl

/-! ### Words in a payload -/

@[simp] theorem length_leWord (count number : Nat) : (leWord count number).length = count := by
  rw [leWord, length_map, length_leBytes]

theorem map_toNat_leWord (count number : Nat) : (leWord count number).map UInt8.toNat = leBytes count number := by
  induction count generalizing number with
  | zero => rfl
  | succ count ih =>
    have digit : (UInt8.ofNat (number % 256)).toNat = number % 256 := by
      rw [UInt8.toNat_ofNat', Nat.mod_mod]
    simp only [leWord, leBytes, map_cons, digit] at ih ⊢
    rw [ih]

theorem fromLeBytes_leWord (small : number ≤ u32Max) : fromLeBytes (leWord 4 number) = number := by
  have bound : number < 256 ^ 4 := by
    unfold u32Max at small
    omega
  rw [fromLeBytes, map_toNat_leWord, fromLe_leBytes, Nat.mod_eq_of_lt bound]

theorem readU32_append (before : Bytes) (small : number ≤ u32Max) (after : Bytes) :
    readU32 (before ++ (leWord 4 number ++ after)) before.length = number := by
  have size : (leWord 4 number).length = 4 := length_leWord 4 number
  rw [readU32, drop_left, take_left' size, fromLeBytes_leWord small]

theorem readU32_front (small : number ≤ u32Max) (after : Bytes) :
    readU32 (leWord 4 number ++ after) 0 = number :=
  readU32_append [] small after

theorem readU32_words (words : List Nat) (before : Bytes) (small : ∀ word ∈ words, word ≤ u32Max) :
    (range words.length).map (fun i => readU32 (before ++ words.flatMap (leWord 4))
      (before.length + i * 4)) = words := by
  induction words generalizing before with
  | nil => rfl
  | cons word words ih =>
    have first := readU32_append before (small word mem_cons_self) (words.flatMap (leWord 4))
    have rest := ih (before ++ leWord 4 word) fun later member =>
      small later (mem_cons_of_mem word member)
    have place : ∀ i, before.length + 4 + i * 4 = before.length + (i + 1) * 4 := by
      omega
    simp only [append_assoc, length_append, length_leWord, place] at rest
    simp only [length_cons, range_succ_eq_map, map_cons, map_map, Function.comp_def,
      flatMap_cons, Nat.zero_mul, Nat.add_zero, first, rest]

/-! ### Columns of a fixed width -/

section
variable {γ : Type} {write : γ → Bytes} {width : Nat}

theorem length_flatMap_width (sized : ∀ value, (write value).length = width) (values : List γ) :
    (values.flatMap write).length = values.length * width := by
  induction values with
  | nil => simp
  | cons value values ih => simp [sized, Nat.succ_mul, Nat.add_comm]

theorem chunksExact_flatMap (sized : ∀ value, (write value).length = width) (values : List γ) :
    chunksExact width values.length (values.flatMap write) = values.map write := by
  induction values with
  | nil => rfl
  | cons value values ih =>
    rw [length_cons, flatMap_cons, chunksExact, take_left' (sized value),
      drop_left' (sized value), ih, map_cons]

theorem decodeFixedColumnPayload_ok (typeName : String) (sized : ∀ value, (write value).length = width)
    (values : List γ) (small : values.length * width ≤ u32Max) :
    decodeFixedColumnPayload (leWord 4 (values.length * width) ++ values.flatMap write) width typeName =
      .ok (values.flatMap write) := by
  have size := length_flatMap_width sized values
  have total : (leWord 4 (values.length * width) ++ values.flatMap write).length =
      4 + values.length * width := by
    rw [length_append, length_leWord, size]
  have body : ((leWord 4 (values.length * width) ++ values.flatMap write).drop 4).take
      (values.length * width) = values.flatMap write := by
    rw [drop_left' (length_leWord 4 _), take_of_length_le (Nat.le_of_eq size)]
  unfold decodeFixedColumnPayload
  rw [guardThat_pass (by simp [total])]
  rw [readU32_front small, guardThat_pass (by simp [total]), guardThat_pass (by simp), body]

theorem decodeFixedKeys_ok (typeName : String) (positive : 0 < width)
    (sized : ∀ value, (write value).length = width) (values : List γ)
    (small : values.length * width ≤ u32Max) :
    decodeFixedKeys (leWord 4 (values.length * width) ++ values.flatMap write) width typeName =
      .ok (values.map write) := by
  have count : (values.flatMap write).length / width = values.length := by
    rw [length_flatMap_width sized, Nat.mul_div_cancel _ positive]
  rw [decodeFixedKeys, decodeFixedColumnPayload_ok typeName sized values small]
  change Except.ok (chunksExact width ((values.flatMap write).length / width) _) = _
  rw [count, chunksExact_flatMap sized]

end

/-! ### Rows of bytes -/

theorem offsetsFrom_cons (start : Nat) (lengths : List Nat) :
    ∃ offsets, offsetsFrom start lengths = start :: offsets := by
  cases lengths with
  | nil => exact ⟨[],rfl⟩
  | cons length lengths => exact ⟨offsetsFrom (start + length) lengths,rfl⟩

section
variable (rows : List Bytes)

theorem getLast?_offsetsFrom (start : Nat) :
    (offsetsFrom start (rows.map length)).getLast? = some (start + rows.flatten.length) := by
  induction rows generalizing start with
  | nil => rfl
  | cons row rows ih =>
    obtain ⟨offsets,later⟩ := offsetsFrom_cons (start + row.length) (rows.map length)
    have last := ih (start + row.length)
    rw [later] at last
    rw [map_cons, offsetsFrom, later, getLast?_cons_cons, last, flatten_cons, length_append, Nat.add_assoc]

theorem offsetsFrom_le (member : offset ∈ offsetsFrom start (rows.map length)) :
    offset ≤ start + rows.flatten.length := by
  induction rows generalizing start with
  | nil =>
    simp [offsetsFrom] at member
    omega
  | cons row rows ih =>
    rw [map_cons, offsetsFrom, mem_cons] at member
    rw [flatten_cons, length_append]
    rcases member with first | later
    · omega
    · have bound := ih later
      omega

theorem sliceOffsets_ok (before : Bytes) (idx : Nat) :
    sliceOffsets (before ++ rows.flatten) before.length idx
      (offsetsFrom before.length (rows.map length)).tail = .ok rows := by
  induction rows generalizing before idx with
  | nil => rfl
  | cons row rows ih =>
    obtain ⟨offsets,later⟩ := offsetsFrom_cons (before.length + row.length) (rows.map length)
    have rest := ih (before ++ row) (idx + 1)
    rw [append_assoc, length_append, later, tail_cons] at rest
    have cut : ((before ++ (row ++ rows.flatten)).drop before.length).take
        (before.length + row.length - before.length) = row := by
      rw [drop_left, Nat.add_sub_cancel_left, take_left]
    rw [flatten_cons, map_cons, offsetsFrom, later, tail_cons, sliceOffsets, cut, rest]
    simp [guardThat, Bind.bind, Except.bind]

theorem decodeOffsets_ok : decodeOffsets rows.flatten (offsetsFrom 0 (rows.map length)) = .ok rows := by
  obtain ⟨offsets,all⟩ := offsetsFrom_cons 0 (rows.map length)
  have last := getLast?_offsetsFrom rows 0
  have sliced := sliceOffsets_ok rows [] 1
  rw [nil_append, length_nil, all, tail_cons] at sliced
  rw [all, Nat.zero_add] at last
  simp [decodeOffsets, all, last, guardThat, Bind.bind, Except.bind, sliced]

def BinaryFits : Prop :=
  rows.flatten.length ≤ u32Max ∧ (rows.length + 1) * 4 ≤ u32Max

def binaryPayload : Bytes :=
  leWord 4 rows.flatten.length ++ rows.flatten ++ leWord 4 ((rows.length + 1) * 4) ++
    (offsetsFrom 0 (rows.map List.length)).flatMap (leWord 4)

end

variable {rows : List Bytes}

theorem encodeBinaryPayload_ok (fits : BinaryFits rows) :
    encodeBinaryPayload rows = .ok (binaryPayload rows) := by
  obtain ⟨bytes,offsets⟩ := fits
  have wide : u32Max ≤ usizeMax := by decide
  unfold encodeBinaryPayload binaryPayload
  rw [if_neg (by omega), if_neg (by omega), if_neg (by omega), if_neg (by omega), if_neg (by omega)]

theorem encodeBinaryPayload_error (large : ¬ BinaryFits rows) :
    ∃ message, encodeBinaryPayload rows = .error message := by
  unfold encodeBinaryPayload
  dsimp only
  repeat' split
  all_goals try exact ⟨_,rfl⟩
  -- no size was refused
  exact absurd ⟨by omega,by omega⟩ large

theorem decodeBinaryPayload_ok (fits : BinaryFits rows) :
    decodeBinaryPayload (binaryPayload rows) = .ok rows := by
  obtain ⟨bytesFit,offsetsFit⟩ := fits
  have count : (offsetsFrom 0 (rows.map length)).length = rows.length + 1 := by
    rw [length_offsetsFrom, length_map]
  have total : (binaryPayload rows).length = 4 + rows.flatten.length + 4 + (rows.length + 1) * 4 := by
    have words := @length_flatMap_width Nat (leWord 4) 4 (length_leWord 4) (offsetsFrom 0 (rows.map length))
    rw [count] at words
    simp only [binaryPayload, length_append, length_leWord, words]
  have first : readU32 (binaryPayload rows) 0 = rows.flatten.length := by
    exact readU32_front bytesFit _
  have second : readU32 (binaryPayload rows) (4 + rows.flatten.length) = (rows.length + 1) * 4 := by
    have read := readU32_append (leWord 4 rows.flatten.length ++ rows.flatten) offsetsFit
      ((offsetsFrom 0 (rows.map length)).flatMap (leWord 4))
    rw [length_append, length_leWord, ← append_assoc] at read
    exact read
  have body : ((binaryPayload rows).drop 4).take rows.flatten.length = rows.flatten := by
    unfold binaryPayload
    rw [append_assoc, append_assoc, drop_left' (length_leWord 4 _), take_left]
  have words : (range (rows.length + 1)).map (fun i => readU32 (binaryPayload rows)
      (4 + rows.flatten.length + 4 + i * 4)) = offsetsFrom 0 (rows.map length) := by
    have read := readU32_words (offsetsFrom 0 (rows.map length))
      (leWord 4 rows.flatten.length ++ rows.flatten ++ leWord 4 ((rows.length + 1) * 4))
      fun offset member => by
        have bound := offsetsFrom_le rows member
        omega
    simp only [count, length_append] at read
    exact read
  have quarter : (rows.length + 1) * 4 / 4 = rows.length + 1 := Nat.mul_div_cancel _ (by decide)
  unfold decodeBinaryPayload
  rw [guardThat_pass (by rw [total, decide_eq_true_eq]; omega)]
  rw [first, guardThat_pass (by rw [total, decide_eq_true_eq]; omega), second,
    guardThat_pass (by rw [total, decide_eq_true_eq]), guardThat_pass (by simp), quarter,
    guardThat_pass (by simp), body, words, decodeOffsets_ok]

end NovaRocks.Lake
