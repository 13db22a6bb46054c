import Mathlib.Data.List.Basic
import Mathlib.Algebra.Order.Ring.Int

/-!
Fixed-width integers as bytes, least significant byte first, and signed numbers in
two's complement.
-/
namespace NovaRocks.Store

def leBytes : Nat → Nat → List Nat
  | 0, _ => []
  | count + 1, number => number % 256 :: leBytes count (number / 256)

def fromLe : List Nat → Nat
  | [] => 0
  | byte :: bytes => byte + 256 * fromLe bytes

@[simp] theorem length_leBytes (count number : Nat) : (leBytes count number).length = count := by
  induction count generalizing number with
  | zero => rfl
  | succ count ih => rw [leBytes, List.length_cons, ih]

theorem fromLe_leBytes (count number : Nat) : fromLe (leBytes count number) = number % 256 ^ count := by
  induction count generalizing number with
  | zero => simp [leBytes, fromLe, Nat.mod_one]
  | succ count ih =>
    rw [leBytes, fromLe, ih, Nat.pow_succ, Nat.mul_comm (256 ^ count) 256, Nat.mod_mul]

/-- The word of a signed number; `half` is the least magnitude that does not fit. -/
def toWord (half : Nat) (value : Int) : Nat :=
  (value % (2 * half : Nat)).toNat

def ofWord (half : Nat) (word : Nat) : Int :=
  if word < half then word else (word : Int) - (2 * half : Nat)

theorem ofWord_toWord {half : Nat} (low : -(half : Int) ≤ value) (high : value < half) :
    toWord half value < 2 * half ∧ ofWord half (toWord half value) = value := by
  unfold ofWord toWord
  by_cases negative : value < 0
  · have word : value % ((2 * half : Nat) : Int) = value + (2 * half : Nat) := by
      rw [← Int.add_emod_right, Int.emod_eq_of_lt (by omega) (by omega)]
    constructor
    · omega
    · rw [if_neg (by omega)]
      omega
  · rw [Int.emod_eq_of_lt (by omega) (by omega)]
    constructor
    · omega
    · rw [if_pos (by omega)]
      omega

def signedBytes (count : Nat) (value : Int) : List Nat :=
  leBytes count (toWord (256 ^ count / 2) value)

def ofSignedBytes (bytes : List Nat) : Int :=
  ofWord (256 ^ bytes.length / 2) (fromLe bytes)

theorem ofSignedBytes_signedBytes {count : Nat}
    (low : -((256 ^ count / 2 : Nat) : Int) ≤ value) (high : value < (256 ^ count / 2 : Nat)) :
    ofSignedBytes (signedBytes count value) = value := by
  obtain ⟨small,back⟩ := ofWord_toWord low high
  rw [ofSignedBytes, signedBytes, length_leBytes, fromLe_leBytes, Nat.mod_eq_of_lt (by omega), back]

end NovaRocks.Store
