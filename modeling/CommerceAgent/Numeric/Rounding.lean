import Mathlib.Algebra.Order.Floor.Ring
import Mathlib.Data.Rat.Floor
import Mathlib.Algebra.Ring.Parity
import Mathlib.Tactic.Linarith
import Mathlib.Tactic.FieldSimp
import Mathlib.Tactic.NormNum
import Mathlib.Tactic.Positivity
import Std.Data.String.ToInt

/-!
# Rounding to the nearest, ties to even

`roundHalfEven` is the rounding of decimal output formats: the nearest integer, and
of two nearest integers the even one. `roundTo` rounds to a number of decimal digits,
and `fixed` writes the rounded number in positional notation.
-/

namespace Numeric

variable {K : Type*} [Field K] [LinearOrder K] [FloorRing K]

/-- The nearest integer; of two, the even one. -/
def roundHalfEven (x : K) : ℤ :=
  if Int.fract x < 1 / 2 then ⌊x⌋
  else if 1 / 2 < Int.fract x then ⌊x⌋ + 1
  else if Even ⌊x⌋ then ⌊x⌋ else ⌊x⌋ + 1

theorem floor_le_roundHalfEven (x : K) : ⌊x⌋ ≤ roundHalfEven x := by
  unfold roundHalfEven
  split_ifs <;> omega

theorem roundHalfEven_le_floor_add_one (x : K) : roundHalfEven x ≤ ⌊x⌋ + 1 := by
  unfold roundHalfEven
  split_ifs <;> omega

/-- The nearest number with `digits` decimal digits. -/
def roundTo (digits : ℕ) (x : K) : K := (roundHalfEven (x * 10 ^ digits) : K) / 10 ^ digits

/-- The absolute value of `x` in units of `10 ^ -digits`, rounded. -/
def units (digits : ℕ) (x : K) : ℕ := (roundHalfEven (|x| * 10 ^ digits)).toNat

/-- Positional notation with a fixed number of digits after the point. A negative number
keeps its sign when it is rounded to zero. -/
def fixed (digits : ℕ) (x : K) : String :=
  let n := units digits x
  let fraction := (n % 10 ^ digits).repr
  (if x < 0 then "-" else "") ++ (n / 10 ^ digits).repr ++
    (if digits = 0 then "" else "." ++ "".pushn '0' (digits - fraction.length) ++ fraction)

/-- The integer that `fixed 0` writes. -/
def whole (x : K) : ℤ := if x < 0 then -(units 0 x : ℤ) else units 0 x

variable [IsStrictOrderedRing K]

@[simp] theorem roundHalfEven_intCast (n : ℤ) : roundHalfEven (n : K) = n := by
  simp [roundHalfEven]

/-- Rounding moves a number by at most one half. -/
theorem abs_roundHalfEven_sub_le (x : K) : |(roundHalfEven x : K) - x| ≤ 1 / 2 := by
  have hfract := Int.self_sub_floor x
  have hnonneg := Int.fract_nonneg x
  have hlt := Int.fract_lt_one x
  unfold roundHalfEven
  rw [abs_le]
  split_ifs <;> push_cast <;> constructor <;> linarith

/-- Rounding keeps the order. -/
theorem roundHalfEven_mono {x y : K} (hxy : x ≤ y) : roundHalfEven x ≤ roundHalfEven y := by
  rcases (Int.floor_mono hxy).lt_or_eq with hlt | heq
  · calc roundHalfEven x ≤ ⌊x⌋ + 1 := roundHalfEven_le_floor_add_one x
      _ ≤ ⌊y⌋ := hlt
      _ ≤ roundHalfEven y := floor_le_roundHalfEven y
  · have hfract : Int.fract x ≤ Int.fract y := by
      rw [← Int.self_sub_floor x, ← Int.self_sub_floor y, heq]
      linarith
    -- With one floor, only the fractional parts decide.
    unfold roundHalfEven
    rw [heq]
    split_ifs <;> first | omega | (exfalso; linarith)

theorem roundTo_mono (digits : ℕ) : Monotone (roundTo digits : K → K) := by
  intro x y hxy
  have hscaled : x * 10 ^ digits ≤ y * 10 ^ digits :=
    mul_le_mul_of_nonneg_right hxy (by positivity)
  have hrounded : (roundHalfEven (x * 10 ^ digits) : K) ≤ roundHalfEven (y * 10 ^ digits) :=
    Int.cast_le.2 (roundHalfEven_mono hscaled)
  exact div_le_div_of_nonneg_right hrounded (by positivity)

/-- A rounded number has that many decimals. -/
theorem roundTo_mul_pow (digits : ℕ) (x : K) :
    roundTo digits x * 10 ^ digits = roundHalfEven (x * 10 ^ digits) := by
  rw [roundTo, div_mul_cancel₀]
  positivity

/-- Rounding moves a number by at most half a unit of the last decimal. -/
theorem abs_roundTo_sub_le (digits : ℕ) (x : K) :
    |roundTo digits x - x| ≤ 1 / 2 / 10 ^ digits := by
  have hpow : (0 : K) < 10 ^ digits := by positivity
  rw [le_div_iff₀ hpow]
  calc |roundTo digits x - x| * 10 ^ digits
      = |(roundTo digits x - x) * 10 ^ digits| := by rw [abs_mul, abs_of_pos hpow]
    _ = |(roundHalfEven (x * 10 ^ digits) : K) - x * 10 ^ digits| := by
        rw [sub_mul, roundTo_mul_pow]
    _ ≤ 1 / 2 := abs_roundHalfEven_sub_le _

@[simp] theorem roundTo_intCast (digits : ℕ) (n : ℤ) : roundTo digits (n : K) = n := by
  have hscaled : (n : K) * 10 ^ digits = ((n * 10 ^ digits : ℤ) : K) := by push_cast; rfl
  rw [roundTo, hscaled, roundHalfEven_intCast]
  push_cast
  field_simp

end Numeric
