import NovaRocks.Store.Writes
import Mathlib.Tactic.Ring

/-!
The bit-unshuffle of a block: a strided transposition of bytes, then a transposition of each
8 by 8 bit matrix by three rounds of masked swaps.
-/
namespace NovaRocks.Encoding
open List Store

abbrev Byte := BitVec 8

/-! The swap network. -/

/-- Exchanges the bits at the places of the mask with those `shift` places above. -/
def swapBits (shift : Nat) (mask x : BitVec 64) : BitVec 64 :=
  let t := (x ^^^ (x >>> shift)) &&& mask
  x ^^^ (t ^^^ (t <<< shift))

def transposeBit8x8 (x : BitVec 64) : BitVec 64 :=
  swapBits 28 0x00000000F0F0F0F0 (swapBits 14 0x0000CCCC0000CCCC (swapBits 7 0x00AA00AA00AA00AA x))

def swapSource (shift : Nat) (mask : BitVec 64) (i : Nat) : Nat :=
  if mask.getLsbD i then i + shift
  else if shift ≤ i ∧ mask.getLsbD (i - shift) then i - shift
  else i

theorem getLsbD_swapBits {shift : Nat} {mask : BitVec 64} (apart : mask &&& (mask <<< shift) = 0)
    (x : BitVec 64) (small : i < 64) :
    (swapBits shift mask x).getLsbD i = x.getLsbD (swapSource shift mask i) := by
  have both := congrArg (fun m => m.getLsbD i) apart
  simp only [swapBits, swapSource, BitVec.getLsbD_xor, BitVec.getLsbD_and, BitVec.getLsbD_shiftLeft,
    BitVec.getLsbD_ushiftRight, small, decide_true, Bool.true_and] at both ⊢
  by_cases above : shift ≤ i
  · rw [Nat.add_sub_cancel' above]
    cases here : mask.getLsbD i with
    | true =>
      have lower : mask.getLsbD (i - shift) = false := by simpa [here, Nat.not_lt.mpr above] using both
      simp [lower, Nat.add_comm shift, -BitVec.getLsbD_eq_getElem]
    | false =>
      cases there : mask.getLsbD (i - shift) with
      | true =>
        simp only [above, Nat.not_lt.mpr above]
        cases x.getLsbD i <;> simp
      | false => simp
  · simp only [Nat.lt_of_not_le above, above, false_and, if_false, decide_true]
    cases here : mask.getLsbD i <;> simp [Nat.add_comm shift, -BitVec.getLsbD_eq_getElem]

theorem getLsbD_transposeBit8x8 (x : BitVec 64) (row : i < 8) (column : k < 8) :
    (transposeBit8x8 x).getLsbD (8 * i + k) = x.getLsbD (8 * k + i) := by
  have sources : ∀ i < 8, ∀ k < 8, swapSource 28 0x00000000F0F0F0F0 (8 * i + k) < 64 ∧
      swapSource 14 0x0000CCCC0000CCCC (swapSource 28 0x00000000F0F0F0F0 (8 * i + k)) < 64 ∧
      swapSource 7 0x00AA00AA00AA00AA (swapSource 14 0x0000CCCC0000CCCC
        (swapSource 28 0x00000000F0F0F0F0 (8 * i + k))) = 8 * k + i := by decide
  obtain ⟨second,first,source⟩ := sources i row k column
  rw [transposeBit8x8, getLsbD_swapBits (by decide) _ (by omega), getLsbD_swapBits (by decide) _ second,
    getLsbD_swapBits (by decide) _ first, source]

/-! Words and their bytes. -/

def leWord (bytes : List Byte) : BitVec 64 :=
  bytes.foldr (fun b x => (x <<< 8) ||| b.setWidth 64) 0

def wordAt (input : List Byte) (start : Nat) : Option (BitVec 64) :=
  if start + 8 ≤ input.length then some (leWord ((input.drop start).take 8)) else none

def byteAt (x : BitVec 64) (k : Nat) : Byte :=
  (x >>> (8 * k)).setWidth 8

def bitAt (bytes : List Byte) (p k : Nat) : Bool :=
  (bytes[p]?.getD 0).getLsbD k

theorem getLsbD_leWord (bytes : List Byte) (inside : 8 * i + k < 64) (column : k < 8) :
    (leWord bytes).getLsbD (8 * i + k) = bitAt bytes i k := by
  induction bytes generalizing i with
  | nil => simp [leWord, bitAt]
  | cons b rest ih =>
    simp only [leWord, foldr_cons, BitVec.getLsbD_or, BitVec.getLsbD_shiftLeft, BitVec.getLsbD_setWidth,
      inside, decide_true, Bool.true_and]
    cases i with
    | zero => simp [bitAt, column]
    | succ i =>
      have above : b.getLsbD (8 * (i + 1) + k) = false := BitVec.getLsbD_of_ge _ _ (by omega)
      have place : 8 * (i + 1) + k - 8 = 8 * i + k := by omega
      have tail := ih (i := i) (by omega)
      rw [leWord] at tail
      rw [above, place, tail]
      simp [bitAt, show ¬ 8 * (i + 1) + k < 8 by omega]

theorem bitAt_transposed (found : wordAt input start = some x) (row : i < 8) (column : k < 8) :
    (byteAt (transposeBit8x8 x) i).getLsbD k = bitAt input (start + k) i := by
  unfold wordAt at found
  split at found
  · cases found
    simp only [byteAt, BitVec.getLsbD_setWidth, BitVec.getLsbD_ushiftRight, column, decide_true, Bool.true_and]
    rw [getLsbD_transposeBit8x8 _ row column, getLsbD_leWord _ (by omega) row]
    simp [bitAt, column, getElem?_drop]
  · cases found

/-! The loops. -/

def turns (a b c : Nat) : List (Nat × Nat × Nat) :=
  (List.range a).flatMap fun j => (List.range b).flatMap fun i => (List.range c).map fun k => (j, i, k)

theorem mem_turns : (j, i, k) ∈ turns a b c ↔ j < a ∧ i < b ∧ k < c := by
  simp [turns]

/-- `none` is a panic. -/
def transByteBitrowScal (input output : List Byte) (size elemSize : Nat) :
    Option (Except String (List Byte)) :=
  if size % 8 ≠ 0 then some (.error s!"trans_byte_bitrow size must be multiple of 8: size={size}")
  else
    let row := size / 8
    (storeAll (fun (j, i, k) => i * 8 * elemSize + j * 8 + k)
      (fun (j, i, k) => input[(j * 8 + k) * row + i]?) (turns elemSize row 8) output).map .ok

/-- The second index runs over the blocks of eight elements that fit. -/
def shuffleBitEightelemScal (input output : List Byte) (size elemSize : Nat) :
    Option (Except String (List Byte)) :=
  if size % 8 ≠ 0 then some (.error s!"shuffle_bit_eightelem size must be multiple of 8: size={size}")
  else if 2 ^ 64 ≤ size * elemSize then some (.error "shuffle_bit_eightelem total bytes overflow")
  else
    (storeAll (fun (j, i, k) => i * (8 * elemSize) + j * 8 / 8 + k * elemSize)
      (fun (j, i, k) => (wordAt input (i * (8 * elemSize) + j * 8)).map fun x => byteAt (transposeBit8x8 x) k)
      (turns elemSize (size * elemSize / (8 * elemSize)) 8) output).map .ok

def bitunshuffleScal (input output : List Byte) (size elemSize : Nat) : Option (Except String (List Byte)) :=
  let inputLen := input.length
  let outputLen := output.length
  let totalBytes := size * elemSize
  if size % 8 ≠ 0 then some (.error s!"bitunshuffle size must be multiple of 8: size={size}")
  else if 2 ^ 64 ≤ totalBytes then some (.error "bitunshuffle total bytes overflow")
  else if inputLen ≠ totalBytes ∨ outputLen ≠ totalBytes then
    some (.error (s!"bitunshuffle buffer size mismatch: input_len={inputLen}, " ++
      s!"output_len={outputLen}, expected_len={totalBytes}"))
  else
    match transByteBitrowScal input (replicate totalBytes 0) size elemSize with
    | none => none
    | some (.error e) => some (.error e)
    | some (.ok tmp) => shuffleBitEightelemScal tmp output size elemSize

theorem digits_inj {a a' b b' n : Nat} (small : b < n) (small' : b' < n) (same : a * n + b = a' * n + b') :
    a = a' ∧ b = b' := by
  have high := congrArg (· / n) same
  have low := congrArg (· % n) same
  simp only [Nat.mul_comm _ n, Nat.mul_add_div (Nat.zero_lt_of_lt small), Nat.mul_add_mod, Nat.div_eq_of_lt,
    small, small', Nat.mod_eq_of_lt] at high low
  exact ⟨by omega,low⟩

theorem digits_lt {a b m n : Nat} (high : a < m) (low : b < n) : a * n + b < m * n := by
  have step : (a + 1) * n ≤ m * n := Nat.mul_le_mul_right n high
  rw [Nat.succ_mul] at step
  omega

section
variable {rows s : Nat} {input output : List Byte} (inputLen : input.length = rows * s * 8)
  (outputLen : output.length = rows * s * 8)
include inputLen outputLen

theorem transByteBitrowScal_ok : ∃ result, transByteBitrowScal input output (rows * 8) s = some (.ok result) ∧
    result.length = rows * s * 8 ∧
    ∀ i < rows, ∀ j < s, ∀ k < 8, result[(i * s + j) * 8 + k]? = input[(j * 8 + k) * rows + i]? := by
  have place : ∀ i j k, i * 8 * s + j * 8 + k = (i * s + j) * 8 + k := fun i j k => by ring
  have total : s * 8 * rows = rows * s * 8 := by ring
  obtain ⟨result,run,length,filled,-⟩ := storeAll_ok (fun (j, i, k) => i * 8 * s + j * 8 + k)
    (fun (j, i, k) => input[(j * 8 + k) * rows + i]?) (turns s rows 8) output
    (by
      rintro ⟨j,i,k⟩ member
      obtain ⟨small,inRow,column⟩ := mem_turns.mp member
      simp only [place, isSome_getElem?, inputLen, outputLen]
      exact ⟨digits_lt (digits_lt inRow small) column,total ▸ digits_lt (digits_lt small column) inRow⟩)
    (by
      rintro ⟨j,i,k⟩ member ⟨j',i',k'⟩ member' same
      obtain ⟨small,-,column⟩ := mem_turns.mp member
      obtain ⟨small',-,column'⟩ := mem_turns.mp member'
      simp only [place] at same
      obtain ⟨high,rfl⟩ := digits_inj column column' same
      obtain ⟨rfl,rfl⟩ := digits_inj small small' high
      rfl)
  refine ⟨result,?_,length.trans outputLen,fun i inRow j small k column => ?_⟩
  · simp [transByteBitrowScal, run]
  · rw [← place]
    exact filled (j, i, k) (mem_turns.mpr ⟨small,inRow,column⟩)

theorem shuffleBitEightelemScal_ok (positive : 0 < s) (fits : rows * 8 * s < 2 ^ 64) :
    ∃ result, shuffleBitEightelemScal input output (rows * 8) s = some (.ok result) ∧
      result.length = rows * s * 8 ∧ ∀ i < rows, ∀ j < s, ∀ e < 8, ∀ k < 8,
        bitAt result ((i * 8 + e) * s + j) k = bitAt input ((i * s + j) * 8 + k) e := by
  have place : ∀ i j k, i * (8 * s) + j * 8 / 8 + k * s = (i * 8 + k) * s + j := fun i j k => by
    rw [Nat.mul_div_cancel j (by omega)]
    ring
  have start : ∀ i j, i * (8 * s) + j * 8 = (i * s + j) * 8 := fun i j => by ring
  have total : rows * 8 * s = rows * s * 8 := by ring
  have word : ∀ i < rows, ∀ j < s, ∃ x, wordAt input ((i * s + j) * 8) = some x := by
    intro i inRow j small
    have below := digits_lt (digits_lt inRow small) (by omega : 7 < 8)
    exact ⟨_,if_pos (inputLen ▸ below)⟩
  obtain ⟨result,run,length,filled,-⟩ := storeAll_ok (fun (j, i, k) => i * (8 * s) + j * 8 / 8 + k * s)
    (fun (j, i, k) => (wordAt input (i * (8 * s) + j * 8)).map fun x => byteAt (transposeBit8x8 x) k)
    (turns s rows 8) output
    (by
      rintro ⟨j,i,k⟩ member
      obtain ⟨small,inRow,column⟩ := mem_turns.mp member
      obtain ⟨x,found⟩ := word i inRow j small
      simp only [place, start, found, outputLen]
      exact ⟨total ▸ digits_lt (digits_lt inRow column) small,rfl⟩)
    (by
      rintro ⟨j,i,k⟩ member ⟨j',i',k'⟩ member' same
      obtain ⟨small,-,column⟩ := mem_turns.mp member
      obtain ⟨small',-,column'⟩ := mem_turns.mp member'
      simp only [place] at same
      obtain ⟨high,rfl⟩ := digits_inj small small' same
      obtain ⟨rfl,rfl⟩ := digits_inj column column' high
      rfl)
  refine ⟨result,?_,length.trans outputLen,fun i inRow j small e row k column => ?_⟩
  · have blocks : rows * 8 * s / (8 * s) = rows := by
      rw [Nat.mul_assoc]
      exact Nat.mul_div_cancel rows (by omega)
    simp only [shuffleBitEightelemScal, Nat.mul_mod_left, ne_eq, not_true, if_false, Nat.not_le.mpr fits,
      blocks, run, Option.map_some]
  · obtain ⟨x,found⟩ := word i inRow j small
    have here := filled (j, i, e) (mem_turns.mpr ⟨small,inRow,row⟩)
    simp only [place, start, found, Option.map_some] at here
    rw [bitAt, here]
    exact bitAt_transposed found row column

end

/-- `input` is the bit-shuffled form of `n` elements of `s` bytes each. -/
def Shuffled (n s : Nat) (block input : List Byte) : Prop :=
  ∀ e < n, ∀ j < s, ∀ k < 8,
    bitAt block (e * s + j) k = bitAt input ((8 * j + k) * (n / 8) + e / 8) (e % 8)

theorem Shuffled.unique (first : Shuffled n s block input) (second : Shuffled n s block' input)
    (length : block.length = n * s) (length' : block'.length = n * s) : block = block' := by
  apply ext_getElem (length.trans length'.symm)
  intro p here there
  apply BitVec.eq_of_getLsbD_eq
  intro k column
  have positive : 0 < s := Nat.pos_of_ne_zero fun none => by simp [none, length] at here
  have element : p / s < n := (Nat.div_lt_iff_lt_mul positive).mpr (length ▸ here)
  have same := (first (p / s) element (p % s) (Nat.mod_lt _ positive) k column).trans
    (second (p / s) element (p % s) (Nat.mod_lt _ positive) k column).symm
  rw [Nat.div_add_mod' p s] at same
  simpa [bitAt, getElem?_eq_getElem here, getElem?_eq_getElem there] using same

/-- The unshuffled block has the bits of the input in their places, and is the only such block. -/
theorem bitunshuffle_restores (n s : Nat) (input output : List Byte) (positive : 1 ≤ s) (eight : n % 8 = 0)
    (fits : n * s < 2 ^ 64) (inputLen : input.length = n * s) (outputLen : output.length = n * s) :
    ∃ result, bitunshuffleScal input output n s = some (.ok result) ∧ result.length = n * s ∧
      Shuffled n s result input ∧
      ∀ block, block.length = n * s → Shuffled n s block input → result = block := by
  obtain ⟨rows,rfl⟩ : ∃ rows, n = rows * 8 := ⟨n / 8,by omega⟩
  have total : rows * 8 * s = rows * s * 8 := by ring
  obtain ⟨tmp,first,tmpLen,moved⟩ := transByteBitrowScal_ok (inputLen.trans total)
    (length_replicate.trans total : (replicate (rows * 8 * s) (0 : Byte)).length = _)
  obtain ⟨result,second,length,bits⟩ :=
    shuffleBitEightelemScal_ok tmpLen (outputLen.trans total) positive fits
  have shuffled : Shuffled (rows * 8) s result input := by
    intro e below j small k column
    have inRow : e / 8 < rows := by omega
    have here := bits (e / 8) inRow j small (e % 8) (by omega) k column
    rw [Nat.div_add_mod' e 8] at here
    rw [here, bitAt, moved (e / 8) inRow j small k column, Nat.mul_div_cancel rows (by omega), Nat.mul_comm 8 j]
    rfl
  refine ⟨result,?_,length.trans total.symm,shuffled,fun block size form =>
    shuffled.unique form (length.trans total.symm) size⟩
  simp only [bitunshuffleScal, eight, ne_eq, not_true, if_false, Nat.not_le.mpr fits, inputLen, outputLen,
    or_self, first, second]

/-- The 16-bit numbers 1 to 8, bit by bit, and back. -/
theorem bitunshuffle_restores_small :
    bitunshuffleScal ([85, 102, 120, 128] ++ replicate 12 0) (replicate 16 0) 8 2 =
      some (.ok [1, 0, 2, 0, 3, 0, 4, 0, 5, 0, 6, 0, 7, 0, 8, 0]) := by
  obtain ⟨result,run,-,-,only⟩ := bitunshuffle_restores 8 2 ([85, 102, 120, 128] ++ replicate 12 0)
    (replicate 16 0) (by decide) (by decide) (by decide) rfl rfl
  rw [run, only [1, 0, 2, 0, 3, 0, 4, 0, 5, 0, 6, 0, 7, 0, 8, 0] rfl (by unfold Shuffled; decide)]

end NovaRocks.Encoding
