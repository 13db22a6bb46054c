import Mathlib.Data.List.Basic
import Mathlib.Algebra.Order.Ring.Int

/-!
Codes that keep the order. Each value has a list of symbols; whatever follows, comparing two
such lists compares the values first and then what follows. Words that all have one length
are such codes if they have the values' order, and so are lists whose least symbol is escaped
and that end with a mark.
-/
namespace NovaRocks.Store
open List

section
variable {α γ : Type} [LT γ]

theorem append_lt_append_iff (same : a.length = b.length) (r s : List γ) :
    a ++ r < b ++ s ↔ a < b ∨ a = b ∧ r < s := by
  induction a generalizing b with
  | nil =>
    have empty := length_eq_zero_iff.mp same.symm
    subst empty
    simp
  | cons x a ih =>
    cases b with
    | nil => simp at same
    | cons y b =>
      rw [cons_append, cons_append, cons_lt_cons_iff, cons_lt_cons_iff,
        ih (Nat.succ.inj same), cons.injEq, and_or_left, or_assoc, and_assoc]

/-- Comparing codes with something after them compares the values first. -/
structure OrderedCode (less : α → α → Prop) (code : α → List γ) : Prop where
  lt_iff : ∀ x y r s, code x ++ r < code y ++ s ↔ less x y ∨ x = y ∧ r < s
  eq_iff : ∀ x y r s, code x ++ r = code y ++ s ↔ x = y ∧ r = s

variable {code : α → List γ}

theorem OrderedCode.of_length (length : ∀ x y, (code x).length = (code y).length)
    (order : ∀ x y, code x < code y ↔ less x y) (injective : ∀ x y, code x = code y → x = y) :
    OrderedCode less code where
  lt_iff x y r s := by
    rw [append_lt_append_iff (length x y), order]
    constructor
    · rintro (before | ⟨same,after⟩)
      · exact .inl before
      · exact .inr ⟨injective x y same,after⟩
    · rintro (before | ⟨rfl,after⟩)
      · exact .inl before
      · exact .inr ⟨rfl,after⟩
  eq_iff x y r s := by
    constructor
    · intro same
      obtain ⟨first,rest⟩ := append_inj same (length x y)
      exact ⟨injective x y first,rest⟩
    · rintro ⟨rfl,rfl⟩
      rfl

theorem OrderedCode.code_lt_iff (ordered : OrderedCode less code) (irreflexive : ¬ ([] : List γ) < [])
    (x y : α) : code x < code y ↔ less x y := by
  have compared := ordered.lt_iff x y [] []
  rw [append_nil, append_nil] at compared
  rw [compared]
  exact or_iff_left fun both => irreflexive both.2

theorem OrderedCode.code_eq_iff (ordered : OrderedCode less code) (x y : α) : code x = code y ↔ x = y := by
  have compared := ordered.eq_iff x y [] []
  rw [append_nil, append_nil] at compared
  rw [compared]
  exact and_iff_left rfl

end

/-! ### Words, most significant byte first -/

def beBytes : Nat → Nat → List UInt8
  | 0, _ => []
  | count + 1, number => UInt8.ofNat (number / 256 ^ count) :: beBytes count (number % 256 ^ count)

@[simp] theorem length_beBytes (count : Nat) : ∀ number, (beBytes count number).length = count := by
  induction count with
  | zero => intro number; rfl
  | succ count ih => intro number; rw [beBytes, length_cons, ih]

theorem digit_compare {base a b r s : Nat} (low : r < base) (low' : s < base) :
    (a < b ∨ a = b ∧ r < s ↔ base * a + r < base * b + s) ∧
      (a = b ∧ r = s ↔ base * a + r = base * b + s) := by
  rcases Nat.lt_trichotomy a b with less | rfl | more
  · have step : base * (a + 1) ≤ base * b := Nat.mul_le_mul_left base less
    rw [Nat.mul_succ] at step
    omega
  · omega
  · have step : base * (b + 1) ≤ base * a := Nat.mul_le_mul_left base more
    rw [Nat.mul_succ] at step
    omega

theorem beBytes_compare (count : Nat) : ∀ n m, n < 256 ^ count → m < 256 ^ count →
    (beBytes count n < beBytes count m ↔ n < m) ∧ (beBytes count n = beBytes count m ↔ n = m) := by
  induction count with
  | zero =>
    intro n m low low'
    rw [Nat.pow_zero, Nat.lt_one_iff] at low low'
    subst low low'
    simp [beBytes]
  | succ count ih =>
    intro n m low low'
    have positive : 0 < 256 ^ count := Nat.pow_pos (by omega)
    have high : ∀ k, k < 256 ^ (count + 1) → k / 256 ^ count < 256 := by
      intro k small
      rw [Nat.div_lt_iff_lt_mul positive, Nat.mul_comm, ← Nat.pow_succ]
      exact small
    obtain ⟨order,same⟩ := ih (n % 256 ^ count) (m % 256 ^ count) (Nat.mod_lt _ positive)
      (Nat.mod_lt _ positive)
    have digits : ∀ k, k < 256 ^ (count + 1) → (UInt8.ofNat (k / 256 ^ count)).toNat = k / 256 ^ count := by
      intro k small
      exact Nat.mod_eq_of_lt (high k small)
    rw [beBytes, beBytes, cons_lt_cons_iff, cons.injEq, order, same, UInt8.lt_iff_toNat_lt,
      ← UInt8.toNat_inj, digits n low, digits m low']
    have compared := digit_compare (a := n / 256 ^ count) (b := m / 256 ^ count) (Nat.mod_lt n positive)
      (Nat.mod_lt m positive)
    rwa [Nat.div_add_mod, Nat.div_add_mod] at compared

/-! ### Signed words -/

/-- A signed number as a word with its sign bit turned over, most significant byte first. -/
def signedBe (count : Nat) (value : BitVec (8 * count)) : List UInt8 :=
  beBytes count (value ^^^ BitVec.intMin (8 * count)).toNat

/-- Turning over the sign bit adds half of the range to numbers below it and takes it from the others. -/
theorem toNat_xor_intMin {width : Nat} (value : BitVec (width + 1)) :
    (value ^^^ BitVec.intMin (width + 1)).toNat =
      if value.toNat < 2 ^ width then value.toNat + 2 ^ width else value.toNat - 2 ^ width := by
  have positive : 0 < 2 ^ width := Nat.two_pow_pos width
  have half : (BitVec.intMin (width + 1)).toNat = 2 ^ width := by
    rw [BitVec.toNat_intMin, Nat.add_sub_cancel]
    exact Nat.mod_eq_of_lt (Nat.pow_lt_pow_right (by omega) (by omega))
  rw [BitVec.toNat_xor, half]
  -- the sign bit is the quotient by half of the range
  have quotient : (value.toNat ^^^ 2 ^ width) / 2 ^ width = value.toNat / 2 ^ width ^^^ 1 := by
    rw [Nat.xor_div_two_pow, Nat.div_self positive]
  have remainder : (value.toNat ^^^ 2 ^ width) % 2 ^ width = value.toNat % 2 ^ width := by
    rw [Nat.xor_mod_two_pow, Nat.mod_self, Nat.xor_zero]
  have whole := Nat.div_add_mod (value.toNat ^^^ 2 ^ width) (2 ^ width)
  rw [quotient, remainder] at whole
  by_cases low : value.toNat < 2 ^ width
  · rw [if_pos low]
    rw [Nat.div_eq_of_lt low, Nat.mod_eq_of_lt low] at whole
    rw [← whole, Nat.zero_xor, Nat.mul_one, Nat.add_comm]
  · have one : value.toNat / 2 ^ width = 1 := Nat.div_eq_of_lt_le (by omega) (by omega)
    have parts := Nat.div_add_mod value.toNat (2 ^ width)
    rw [one, Nat.mul_one] at parts
    rw [one, Nat.xor_self, Nat.mul_zero, Nat.zero_add] at whole
    rw [if_neg low, ← whole]
    omega

theorem xor_intMin_lt_iff {width : Nat} (x y : BitVec (width + 1)) :
    (x ^^^ BitVec.intMin (width + 1)).toNat < (y ^^^ BitVec.intMin (width + 1)).toNat ↔ x.toInt < y.toInt := by
  rw [toNat_xor_intMin, toNat_xor_intMin, BitVec.toInt_eq_toNat_cond, BitVec.toInt_eq_toNat_cond]
  split <;> split <;> split <;> split <;> omega

theorem signedBe_ordered (count : Nat) (positive : 0 < count) :
    OrderedCode (fun x y : BitVec (8 * count) => x.toInt < y.toInt) (signedBe count) := by
  obtain ⟨width,wide⟩ : ∃ width, 8 * count = width + 1 := ⟨8 * count - 1,by omega⟩
  have bounded : ∀ x : BitVec (8 * count), x.toNat < 256 ^ count := by
    intro x
    have small := x.isLt
    rwa [Nat.pow_mul] at small
  have order : ∀ x y : BitVec (8 * count), (x ^^^ BitVec.intMin (8 * count)).toNat <
      (y ^^^ BitVec.intMin (8 * count)).toNat ↔ x.toInt < y.toInt := by
    rw [wide]
    exact xor_intMin_lt_iff
  apply OrderedCode.of_length
  · intro x y
    rw [signedBe, signedBe, length_beBytes, length_beBytes]
  · intro x y
    rw [signedBe, signedBe, (beBytes_compare count _ _ (bounded _) (bounded _)).1, order]
  · intro x y same
    rw [signedBe, signedBe, (beBytes_compare count _ _ (bounded _) (bounded _)).2, BitVec.toNat_inj] at same
    exact (BitVec.xor_left_inj _).mp same

/-! ### Escaped lists -/

/-- A list in which `escape` is followed by `suffix`; two `escape`s end it. -/
def escaped {γ : Type} [DecidableEq γ] (escape suffix : γ) (value : List γ) : List γ :=
  (value.flatMap fun symbol => if symbol = escape then [escape, suffix] else [symbol]) ++ [escape, escape]

section
variable {γ : Type} [DecidableEq γ] {escape suffix : γ}

theorem escaped_nil : escaped escape suffix [] = [escape, escape] :=
  rfl

theorem escaped_cons_same (value : List γ) :
    escaped escape suffix (escape :: value) = escape :: suffix :: escaped escape suffix value := by
  simp [escaped]

theorem escaped_cons_other (other : symbol ≠ escape) (value : List γ) :
    escaped escape suffix (symbol :: value) = symbol :: escaped escape suffix value := by
  simp [escaped, other]

theorem escaped_ordered [LT γ] (asymmetric : ∀ a b : γ, a < b → ¬ b < a)
    (greater : ∀ symbol, symbol ≠ escape → escape < symbol) (other : suffix ≠ escape) :
    OrderedCode (fun x y : List γ => x < y) (escaped escape suffix) := by
  have above := greater suffix other
  have irreflexive : ∀ a : γ, ¬ a < a := fun a less => asymmetric a a less less
  have both : ∀ x y r s, (escaped escape suffix x ++ r < escaped escape suffix y ++ s ↔ x < y ∨ x = y ∧ r < s) ∧
      (escaped escape suffix x ++ r = escaped escape suffix y ++ s ↔ x = y ∧ r = s) := by
    intro x
    induction x with
    | nil =>
      intro y r s
      cases y with
      | nil => simp [escaped_nil, cons_lt_cons_iff, irreflexive]
      | cons b y =>
        by_cases same : b = escape
        · subst same
          simp [escaped_nil, escaped_cons_same, cons_lt_cons_iff, above, Ne.symm other]
        · simp [escaped_nil, escaped_cons_other same, cons_lt_cons_iff, greater b same, Ne.symm same]
    | cons a x ih =>
      intro y r s
      cases y with
      | nil =>
        by_cases same : a = escape
        · subst same
          simp [escaped_nil, escaped_cons_same, cons_lt_cons_iff, asymmetric _ _ above, irreflexive, other]
        · simp [escaped_nil, escaped_cons_other same, cons_lt_cons_iff, asymmetric _ _ (greater a same),
            same]
      | cons b y =>
        obtain ⟨less,equal⟩ := ih y r s
        by_cases sameA : a = escape <;> by_cases sameB : b = escape
        · subst sameA sameB
          simp [escaped_cons_same, cons_lt_cons_iff, irreflexive, less, equal]
        · subst sameA
          simp [escaped_cons_same, escaped_cons_other sameB, cons_lt_cons_iff, Ne.symm sameB]
        · subst sameB
          simp [escaped_cons_same, escaped_cons_other sameA, cons_lt_cons_iff, sameA]
        · simp only [escaped_cons_other sameA, escaped_cons_other sameB, cons_append,
            cons_lt_cons_iff, less, equal, cons.injEq, and_or_left, or_assoc, and_assoc, and_self]
  exact ⟨fun x y r s => (both x y r s).1,fun x y r s => (both x y r s).2⟩

end

end NovaRocks.Store
