import Mathlib.Algebra.Order.Field.Basic
import Mathlib.Algebra.Order.Field.Power
import Mathlib.Algebra.Order.Ring.Rat
import Mathlib.Tactic.FieldSimp
import Mathlib.Tactic.Ring
import NovaRocks.Store.Checked

/-!
Arithmetic on Decimal128 columns. A value is an integer over a power of ten, the scale of its
type; operands are brought to the scale of the result with checked products, and a row whose
result cannot be computed or does not fit is NULL.
-/
namespace NovaRocks.Decimal

structure DecimalType where
  precision : Nat
  scale : Int

inductive DecimalOp where
  | add
  | sub
  | mul
  | div
  | mod
  deriving DecidableEq

def decimalArithmeticResultType (left right : DecimalType) : DecimalOp → DecimalType
  | .mul => ⟨min (left.precision + right.precision) 38, left.scale + right.scale⟩
  | .div => ⟨38, if left.scale ≤ 6 then left.scale + 6 else if left.scale ≤ 12 then 12 else left.scale⟩
  | _ =>
    let scale := max left.scale right.scale
    ⟨(min (max (left.precision - left.scale) (right.precision - right.scale) + scale + 1) 38).toNat, scale⟩

/-- Why a row has no value: it is NULL, as an overflowing product or not, or the call fails. -/
inductive Stop where
  | null (mulOverflow : Bool)
  | error (message : String)

def checkedI128 (x : Int) (stop : Stop) : Except Stop Int :=
  if -2 ^ 127 ≤ x ∧ x < 2 ^ 127 then .ok x else .error stop

/-- What is not checked wraps. -/
def wrapI128 (x : Int) : Int :=
  x.bmod (2 ^ 128)

/-- Every caller replaces the error of an overflow by its own. -/
def pow10I128 (stop : Stop) : Nat → Except Stop Int
  | 0 => .ok 1
  | exp + 1 => do
    let out ← pow10I128 stop exp
    checkedI128 (out * 10) stop

/-- A quotient that overflows panics. -/
def divRoundI128 (dividend divisor : Int) : Except Stop Int := do
  let q ← checkedI128 (dividend.tdiv divisor) (.error "attempt to divide with overflow")
  let r := dividend.tmod divisor
  let absB := wrapI128 divisor.natAbs
  let threshold := absB / 2 + absB % 2
  if r = 0 ∨ r.natAbs < threshold then return q
  else return wrapI128 (q + if dividend < 0 ↔ divisor < 0 then 1 else -1)

/-- The unscaled value at a scale that is larger by `diff`. -/
def rescale (value diff : Int) (mulOverflow : Bool) : Except Stop Int :=
  if 0 ≤ diff then do
    let factor ← pow10I128 (.null mulOverflow) diff.toNat
    checkedI128 (value * factor) (.null mulOverflow)
  else do
    let factor ← pow10I128 (.null false) (-diff).toNat
    return value.tdiv factor

def evalDecimalDivValue (lhsVal rhsVal lhsScale rhsScale outScale : Int) : Except Stop Int :=
  if rhsVal = 0 then .error (.null false)
  else do
    let numerator ← rescale lhsVal (outScale + rhsScale - lhsScale) false
    divRoundI128 numerator rhsVal

def decimalValueFitsPrecision (unscaled : Int) (precision : Nat) : Bool :=
  (Nat.toDigits 10 unscaled.natAbs).length ≤ precision

section
variable (left right out : DecimalType)

def scaledOperands (op : String) (lhsVal rhsVal : Int) : Except Stop (Int × Int) :=
  if out.scale < left.scale ∨ out.scale < right.scale then .error (.error s!"decimal {op} scale mismatch")
  else do
    let lhsScaled ← rescale lhsVal (out.scale - left.scale) false
    let rhsScaled ← rescale rhsVal (out.scale - right.scale) false
    return (lhsScaled, rhsScaled)

def evalDecimalValue (lhsVal rhsVal : Int) : DecimalOp → Except Stop Int
  | .add => do
    let scaled ← scaledOperands left right out "add/sub" lhsVal rhsVal
    checkedI128 (scaled.1 + scaled.2) (.null false)
  | .sub => do
    let scaled ← scaledOperands left right out "add/sub" lhsVal rhsVal
    checkedI128 (scaled.1 - scaled.2) (.null false)
  | .mul => do
    let product ← checkedI128 (lhsVal * rhsVal) (.null true)
    rescale product (out.scale - (left.scale + right.scale)) true
  | .div => evalDecimalDivValue lhsVal rhsVal left.scale right.scale out.scale
  | .mod =>
    if rhsVal = 0 then .error (.null false)
    else do
      let scaled ← scaledOperands left right out "mod" lhsVal rhsVal
      return scaled.1.tmod scaled.2

/-- The value of a row, and whether it counts as an overflowing product. -/
def evalDecimalRow (op : DecimalOp) : Option Int × Option Int → Except String (Option Int × Bool)
  | (some lhsVal, some rhsVal) =>
    match evalDecimalValue left right out lhsVal rhsVal op with
    | .ok outVal =>
      if decimalValueFitsPrecision outVal out.precision then .ok (some outVal, false)
      else .ok (none, decide (op = .mul))
    | .error (.null mulOverflow) => .ok (none, mulOverflow)
    | .error (.error message) => .error message
  | _ => .ok (none, false)

/-- The array library refuses some precisions and scales of the result by `validate`. -/
def evalDecimalBinop (validate : DecimalType → Except String Unit) (op : DecimalOp) (strictOverflow : Bool)
    (lhs rhs : List (Option Int)) : Except String (List (Option Int)) := do
  guardThat (lhs.length = rhs.length) "decimal arithmetic length mismatch"
  let rows ← (lhs.zip rhs).mapM (evalDecimalRow left right out op)
  guardThat (!(strictOverflow && decide (op = .mul) && rows.any Prod.snd))
    "Expr evaluate meet error: The 'mul' operation involving decimal values overflows"
  validate out
  return rows.map Prod.fst

end

/-! ### What the results should be -/

abbrev DecimalType.Operand (type : DecimalType) : Prop :=
  0 ≤ type.scale ∧ type.scale ≤ type.precision ∧ type.precision ≤ 38

abbrev DecimalType.Fits (type : DecimalType) (unscaled : Int) : Prop :=
  unscaled.natAbs < 10 ^ type.precision

def DecimalType.value (type : DecimalType) (unscaled : Int) : ℚ :=
  unscaled / 10 ^ type.scale

/-- A nearest integer, and of two nearest ones that away from zero. -/
def IsRounded (x : ℚ) (v : Int) : Prop :=
  |v - x| ≤ 1 / 2 ∧ (|v - x| = 1 / 2 → |x| < |(v : ℚ)|)

def IsRemainder (x y v : ℚ) : Prop :=
  (∃ q : Int, x = y * q + v) ∧ |v| < |y| ∧ 0 ≤ x * v

def IsResult (x y : ℚ) (out : DecimalType) (v : Int) : DecimalOp → Prop
  | .add => out.value v = x + y
  | .sub => out.value v = x - y
  | .mul => out.value v = x * y
  | .div => y ≠ 0 ∧ IsRounded (x / y * 10 ^ out.scale) v
  | .mod => IsRemainder x y (out.value v)

/-! ### Division and remainder -/

theorem checkedI128_ok (done : checkedI128 x stop = .ok y) : y = x ∧ -2 ^ 127 ≤ x ∧ x < 2 ^ 127 := by
  unfold checkedI128 at done
  split at done
  · cases done
    exact ⟨rfl,‹_›⟩
  · cases done

theorem wrapI128_of_fits (low : -2 ^ 127 ≤ x) (high : x < 2 ^ 127) : wrapI128 x = x :=
  Int.bmod_eq_of_le low high

theorem tmod_facts {n d : Int} (nonzero : d ≠ 0) :
    n.tdiv d * d + n.tmod d = n ∧ (n.tmod d).natAbs < d.natAbs ∧ (n.tmod d).natAbs ≤ n.natAbs ∧
      (0 ≤ n → 0 ≤ n.tmod d) ∧ (n ≤ 0 → n.tmod d ≤ 0) := by
  have size := Int.natAbs_tmod n d
  refine ⟨Int.tdiv_mul_add_tmod n d,?_,?_,Int.tmod_nonneg d,fun negative => ?_⟩
  · rw [size]
    exact Nat.mod_lt _ (Int.natAbs_pos.mpr nonzero)
  · rw [size]
    exact Nat.mod_le _ _
  · have := Int.tmod_nonneg d (Int.neg_nonneg_of_nonpos negative)
    rw [Int.neg_tmod] at this
    omega

theorem divRoundI128_ok {n d v : Int} (nonzero : d ≠ 0) (small : d.natAbs < 2 ^ 127) (word : n.natAbs ≤ 2 ^ 127)
    (done : divRoundI128 n d = .ok v) : 2 * |v * d - n| ≤ |d| ∧ (2 * |v * d - n| = |d| → |n| < |v * d|) := by
  simp only [Int.abs_eq_natAbs]
  obtain ⟨q,quotient,done⟩ := bind_ok done
  obtain ⟨rfl,-⟩ := checkedI128_ok quotient
  obtain ⟨whole,less,within,positive,negative⟩ := tmod_facts (n := n) nonzero
  rw [wrapI128_of_fits (by omega) (by omega)] at done
  dsimp only at done
  by_cases near : n.tmod d = 0 ∨ ((n.tmod d).natAbs : Int) < d.natAbs / 2 + d.natAbs % 2
  · rw [if_pos near] at done
    cases done
    omega
  · rw [if_neg near] at done
    generalize isCarry : (if n < 0 ↔ d < 0 then (1 : Int) else -1) = carry at done
    have unit : carry.natAbs = 1 ∧ carry * d = if n < 0 then -(d.natAbs : Int) else d.natAbs := by
      subst isCarry
      split_ifs <;> omega
    -- the divisor is not one, so the quotient has room for the carry
    have room : (n.tdiv d).natAbs ≤ n.natAbs / 2 := by
      rw [Int.natAbs_tdiv]
      exact Nat.div_le_div_left (by omega) (by decide)
    rw [wrapI128_of_fits (by omega) (by omega)] at done
    cases done
    rw [add_mul]
    omega

theorem rounded_of_ints {n d v : Int} (nonzero : d ≠ 0) (near : 2 * |v * d - n| ≤ |d|)
    (away : 2 * |v * d - n| = |d| → |n| < |v * d|) : IsRounded (n / d) v := by
  have divisor : (d : ℚ) ≠ 0 := Int.cast_ne_zero.mpr nonzero
  have positive : 0 < |(d : ℚ)| := abs_pos.mpr divisor
  have error : |(v : ℚ) - n / d| = |(v : ℚ) * d - n| / |(d : ℚ)| := by
    rw [← abs_div, sub_div, mul_div_cancel_right₀ _ divisor]
  have half : (1 / 2 : ℚ) * |(d : ℚ)| = |(d : ℚ)| / 2 := by ring
  rw [IsRounded, error, div_le_iff₀ positive, div_eq_iff positive.ne', half, le_div_iff₀' two_pos,
    eq_div_iff_mul_eq two_ne_zero, mul_comm _ (2 : ℚ), abs_div, div_lt_iff₀ positive, ← abs_mul]
  exact_mod_cast And.intro near away

/-! ### Scales -/

theorem pow10I128_ok (done : pow10I128 stop exp = .ok factor) : factor = 10 ^ exp := by
  induction exp generalizing factor with
  | zero =>
    cases done
    rfl
  | succ exp ih =>
    obtain ⟨out,smaller,done⟩ := bind_ok done
    rw [(checkedI128_ok done).1, ih smaller, pow_succ]

theorem rescale_ok (up : 0 ≤ diff) (done : rescale x diff mulOverflow = .ok y) :
    (y : ℚ) = x * 10 ^ diff ∧ y.natAbs ≤ 2 ^ 127 := by
  rw [rescale, if_pos up] at done
  obtain ⟨factor,power,done⟩ := bind_ok done
  obtain ⟨rfl,range⟩ := checkedI128_ok done
  refine ⟨?_,by omega⟩
  lift diff to Nat using up
  rw [pow10I128_ok power, zpow_natCast]
  push_cast
  rfl

variable {left right out : DecimalType}

theorem value_rescaled (up : left.scale ≤ out.scale)
    (done : rescale x (out.scale - left.scale) mulOverflow = .ok y) : out.value y = left.value x := by
  rw [DecimalType.value, DecimalType.value, (rescale_ok (Int.sub_nonneg_of_le up) done).1,
    zpow_sub₀ (by decide)]
  field_simp

theorem scaledOperands_ok (done : scaledOperands left right out op l r = .ok scaled) :
    out.value scaled.1 = left.value l ∧ out.value scaled.2 = right.value r := by
  unfold scaledOperands at done
  split at done
  · cases done
  case isFalse up =>
    rw [not_or, not_lt, not_lt] at up
    obtain ⟨l',first,done⟩ := bind_ok done
    obtain ⟨r',second,done⟩ := bind_ok done
    cases done
    exact ⟨value_rescaled up.1 first,value_rescaled up.2 second⟩

theorem value_ne_zero : out.value x ≠ 0 ↔ x ≠ 0 := by
  rw [DecimalType.value, Ne, div_eq_zero_iff, or_iff_left (zpow_ne_zero _ (by decide)), Int.cast_eq_zero]

theorem remainder_of_ints (nonzero : r ≠ 0) : IsRemainder (out.value l) (out.value r) (out.value (l.tmod r)) := by
  obtain ⟨whole,less,-,positive,negative⟩ := tmod_facts (n := l) nonzero
  have unit : (0 : ℚ) < 10 ^ out.scale := zpow_pos (by decide) _
  have signs : 0 ≤ l * l.tmod r := by
    rcases le_total 0 l with up | down
    · exact mul_nonneg up (positive up)
    · exact mul_nonneg_of_nonpos_of_nonpos down (negative down)
  simp only [DecimalType.value]
  refine ⟨⟨l.tdiv r,?_⟩,?_,?_⟩
  · rw [div_mul_eq_mul_div, ← add_div, mul_comm]
    exact_mod_cast congrArg (fun n : Int => (n : ℚ) / 10 ^ out.scale) whole.symm
  · rw [abs_div, abs_div, div_lt_div_iff_of_pos_right (abs_pos.mpr unit.ne')]
    have less : |l.tmod r| < |r| := by
      rw [Int.abs_eq_natAbs, Int.abs_eq_natAbs]
      exact_mod_cast less
    exact_mod_cast less
  · rw [div_mul_div_comm]
    exact div_nonneg (by exact_mod_cast signs) (mul_pos unit unit).le

theorem evalDecimalValue_ok {op : DecimalOp} (rhs : right.Operand) (fits : right.Fits r)
    (isOut : out = decimalArithmeticResultType left right op)
    (done : evalDecimalValue left right out l r op = .ok v) :
    IsResult (left.value l) (right.value r) out v op := by
  cases op with
  | add =>
    obtain ⟨scaled,aligned,done⟩ := bind_ok done
    obtain ⟨first,second⟩ := scaledOperands_ok aligned
    rw [IsResult, ← first, ← second, (checkedI128_ok done).1]
    simp only [DecimalType.value, Int.cast_add, add_div]
  | sub =>
    obtain ⟨scaled,aligned,done⟩ := bind_ok done
    obtain ⟨first,second⟩ := scaledOperands_ok aligned
    rw [IsResult, ← first, ← second, (checkedI128_ok done).1]
    simp only [DecimalType.value, Int.cast_sub, sub_div]
  | mul =>
    obtain ⟨product,exact,done⟩ := bind_ok done
    have sum : out.scale = left.scale + right.scale := by rw [isOut]; rfl
    rw [sum, sub_self] at done
    rw [IsResult, DecimalType.value, (rescale_ok le_rfl done).1, (checkedI128_ok exact).1, sum,
      zpow_add₀ (by decide), zpow_zero, mul_one, Int.cast_mul, mul_div_mul_comm]
    rfl
  | div =>
    change evalDecimalDivValue l r _ _ _ = _ at done
    unfold evalDecimalDivValue at done
    split at done
    · cases done
    case isFalse nonzero =>
      obtain ⟨numerator,scaled,done⟩ := bind_ok done
      have up : left.scale ≤ out.scale := by
        rw [isOut]
        dsimp only [decimalArithmeticResultType]
        split_ifs <;> omega
      obtain ⟨isNumerator,word⟩ := rescale_ok (by have := rhs.1; omega) scaled
      have small : r.natAbs < 2 ^ 127 :=
        fits.trans_le ((Nat.pow_le_pow_right (by decide) rhs.2.2).trans (by decide))
      obtain ⟨near,away⟩ := divRoundI128_ok nonzero small word done
      refine ⟨value_ne_zero.mpr nonzero,?_⟩
      convert rounded_of_ints nonzero near away using 1
      rw [isNumerator, DecimalType.value, DecimalType.value, zpow_sub₀ (by decide), zpow_add₀ (by decide)]
      have : (r : ℚ) ≠ 0 := Int.cast_ne_zero.mpr nonzero
      field_simp
  | mod =>
    change (if _ then _ else _) = _ at done
    split at done
    · cases done
    case isFalse nonzero =>
      obtain ⟨scaled,aligned,done⟩ := bind_ok done
      cases done
      obtain ⟨first,second⟩ := scaledOperands_ok aligned
      have divisor : out.value scaled.2 ≠ 0 := by
        rw [second]
        exact value_ne_zero.mpr nonzero
      rw [IsResult, ← first, ← second]
      exact remainder_of_ints (value_ne_zero.mp divisor)

theorem fits_of_digits (fits : decimalValueFitsPrecision x out.precision = true) : out.Fits x := by
  have digits := of_decide_eq_true fits
  have some' := (Nat.length_toDigits_pos (b := 10)).trans_le digits
  exact (Nat.length_toDigits_le_iff (by decide) some').mp digits

theorem mapM_getElem? {α β : Type} {f : α → Except String β} {xs : List α} {ys : List β} {y : β} {i : Nat}
    (done : xs.mapM f = .ok ys) (at' : ys[i]? = some y) : ∃ x, xs[i]? = some x ∧ f x = .ok y := by
  induction xs generalizing ys i with
  | nil =>
    cases done
    cases at'
  | cons x xs ih =>
    rw [List.mapM_cons] at done
    obtain ⟨head,first,done⟩ := bind_ok done
    obtain ⟨rest,later,done⟩ := bind_ok done
    cases done
    cases i with
    | zero =>
      cases at'
      exact ⟨x,rfl,first⟩
    | succ i => exact ih later at'

theorem evalDecimalRow_ok (done : evalDecimalRow left right out op operands = .ok (some v, mulOverflow)) :
    ∃ l r, operands = (some l, some r) ∧ evalDecimalValue left right out l r op = .ok v ∧ out.Fits v := by
  unfold evalDecimalRow at done
  split at done
  case h_1 l r =>
    split at done
    case h_1 outVal value =>
      split at done
      case isTrue fits =>
        cases done
        exact ⟨l,r,rfl,value,fits_of_digits fits⟩
      case isFalse => cases done
    case h_2 => cases done
    case h_3 => cases done
  case h_2 => cases done

/-- Every value that is answered fits its type and is the exact result, for a quotient the rounded one. -/
theorem evalDecimalBinop_exact {i : Nat} (rhsType : right.Operand) (fits : ∀ r, some r ∈ rhs → right.Fits r)
    (isOut : out = decimalArithmeticResultType left right op)
    (done : evalDecimalBinop left right out validate op strictOverflow lhs rhs = .ok answers)
    (answered : answers[i]? = some (some v)) :
    ∃ l r, lhs[i]? = some (some l) ∧ rhs[i]? = some (some r) ∧ out.Fits v ∧
      IsResult (left.value l) (right.value r) out v op := by
  obtain ⟨_,-,done⟩ := bind_ok done
  obtain ⟨values,evaluated,done⟩ := bind_ok done
  obtain ⟨_,-,done⟩ := bind_ok done
  obtain ⟨_,-,done⟩ := bind_ok done
  cases done
  rw [List.getElem?_map, Option.map_eq_some_iff] at answered
  obtain ⟨⟨_,mulOverflow⟩,at',rfl⟩ := answered
  obtain ⟨operands,paired,row⟩ := mapM_getElem? evaluated at'
  obtain ⟨l,r,rfl,value,fitsOut⟩ := evalDecimalRow_ok row
  obtain ⟨left,right⟩ := List.getElem?_zip_eq_some.mp paired
  exact ⟨l,r,left,right,fitsOut,evalDecimalValue_ok rhsType (fits r (List.mem_of_getElem? right)) isOut value⟩

theorem evalDecimalBinop_exact_third :
    ∃ l r, [some (10 : Int)][0]? = some (some l) ∧ [some (-30 : Int)][0]? = some (some r) ∧
      (DecimalType.mk 38 7).Fits (-3333333) ∧
      IsResult ((DecimalType.mk 3 1).value l) ((DecimalType.mk 3 1).value r) ⟨38, 7⟩ (-3333333) .div :=
  evalDecimalBinop_exact (by decide) (fun r given => by
      cases List.mem_singleton.mp given
      decide) rfl
    (show evalDecimalBinop ⟨3, 1⟩ ⟨3, 1⟩ ⟨38, 7⟩ (fun _ => .ok ()) .div false [some 10] [some (-30)] =
      .ok [some (-3333333)] from rfl) rfl

end NovaRocks.Decimal
