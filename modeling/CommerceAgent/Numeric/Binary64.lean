import CommerceAgent.Numeric.Rounding
import Mathlib.Algebra.Order.Field.Power
import Mathlib.Data.Int.Log
import Mathlib.Tactic.Ring

/-!
# Floating-point numbers of 64 bits

A finite number is an integer of 53 bits times a power of two, an operation is the exact
one followed by rounding to nearest, and what lies beyond the largest number becomes
infinite. The two zeros are one value, and so are the NaNs.
-/

namespace Numeric

/-- The distance of the numbers around `x`. -/
def spacing (x : ℚ) : ℚ := 2 ^ max (Int.log 2 |x| - 52) (-1074)

/-- The nearest number, the exponent unbounded above. -/
def nearest (x : ℚ) : ℚ := roundHalfEven (x / spacing x) * spacing x

/-- The finite numbers of the format. -/
def Representable (x : ℚ) : Prop :=
  (∃ m e : ℤ, |m| < 2 ^ 53 ∧ -1074 ≤ e ∧ x = m * 2 ^ e) ∧ |x| < 2 ^ 1024

theorem spacing_pos (x : ℚ) : 0 < spacing x := by
  unfold spacing
  positivity

theorem abs_div_spacing_le (x : ℚ) : |x / spacing x| ≤ 2 ^ 53 := by
  have hlog : |x| < 2 ^ (Int.log 2 |x| + 1) := Int.lt_zpow_succ_log_self (by norm_num) |x|
  have hstep : (2 : ℚ) ^ (Int.log 2 |x| - 52) ≤ spacing x :=
    zpow_le_zpow_right₀ (by norm_num) (le_max_left _ _)
  rw [abs_div, abs_of_pos (spacing_pos x), div_le_iff₀ (spacing_pos x)]
  calc |x| ≤ 2 ^ (Int.log 2 |x| + 1) := hlog.le
    _ = 2 ^ 53 * 2 ^ (Int.log 2 |x| - 52) := by
        rw [← zpow_natCast, ← zpow_add₀ (by norm_num)]
        congr 1
        push_cast
        ring
    _ ≤ 2 ^ 53 * spacing x := mul_le_mul_of_nonneg_left hstep (by norm_num)

theorem abs_roundHalfEven_le {x : ℚ} {n : ℤ} (h : |x| ≤ n) : |roundHalfEven x| ≤ n := by
  have hbounds := abs_le.1 h
  apply abs_le.2
  constructor
  · have hlow : ((-n : ℤ) : ℚ) ≤ x := by
      push_cast
      exact hbounds.1
    have hmono := roundHalfEven_mono hlow
    rwa [roundHalfEven_intCast] at hmono
  · have hmono := roundHalfEven_mono hbounds.2
    rwa [roundHalfEven_intCast] at hmono

/-- The nearest number has 53 bits; where rounding reaches the next power of two, the
exponent is one larger. -/
theorem nearest_eq (x : ℚ) : ∃ m e : ℤ, |m| < 2 ^ 53 ∧ -1074 ≤ e ∧ nearest x = m * 2 ^ e := by
  have hscaled : |x / spacing x| ≤ ((2 ^ 53 : ℤ) : ℚ) := by
    push_cast
    exact abs_div_spacing_le x
  have hbits := abs_roundHalfEven_le hscaled
  have hexponent : -1074 ≤ max (Int.log 2 |x| - 52) (-1074) := le_max_right _ _
  rcases hbits.lt_or_eq with hlt | heq
  · exact ⟨_, _, hlt, hexponent, rfl⟩
  · have hsplit : ∃ m : ℤ, |m| < 2 ^ 53 ∧ roundHalfEven (x / spacing x) = 2 * m := by
      rcases (abs_eq (by norm_num)).1 heq with hplus | hminus
      · exact ⟨2 ^ 52, by norm_num, by rw [hplus]; norm_num⟩
      · exact ⟨-2 ^ 52, by norm_num, by rw [hminus]; norm_num⟩
    obtain ⟨m, hm, hround⟩ := hsplit
    refine ⟨m, max (Int.log 2 |x| - 52) (-1074) + 1, hm, by omega, ?_⟩
    rw [nearest, hround, spacing, zpow_add_one₀ (by norm_num)]
    push_cast
    ring

/-- Rounding at most doubles a number. -/
theorem abs_nearest_le (x : ℚ) : |nearest x| ≤ 2 * |x| + 1 := by
  have hpos := spacing_pos x
  have hhalf := abs_roundHalfEven_sub_le (x / spacing x)
  have herror : |nearest x - x| ≤ spacing x / 2 := by
    have hfactor : nearest x - x = (roundHalfEven (x / spacing x) - x / spacing x) * spacing x := by
      rw [nearest, sub_mul, div_mul_cancel₀ x hpos.ne']
    rw [hfactor, abs_mul, abs_of_pos hpos]
    linarith [mul_le_mul_of_nonneg_right hhalf hpos.le]
  have hspacing : spacing x ≤ |x| + 1 := by
    by_cases hzero : x = 0
    · rw [hzero]
      norm_num [spacing]
    · rcases max_choice (Int.log 2 |x| - 52) (-1074) with hlog | hleast
      · have hle : (2 : ℚ) ^ Int.log 2 |x| ≤ |x| :=
          Int.zpow_log_le_self (by norm_num) (abs_pos.2 hzero)
        have hstep : (2 : ℚ) ^ (Int.log 2 |x| - 52) ≤ 2 ^ Int.log 2 |x| :=
          zpow_le_zpow_right₀ (by norm_num) (by omega)
        rw [spacing, hlog]
        linarith
      · have hone : (2 : ℚ) ^ (-1074 : ℤ) ≤ 1 := zpow_le_one_of_nonpos₀ (by norm_num) (by norm_num)
        rw [spacing, hleast]
        linarith [abs_nonneg x]
  calc |nearest x| = |(nearest x - x) + x| := by rw [sub_add_cancel]
    _ ≤ |nearest x - x| + |x| := abs_add_le _ _
    _ ≤ 2 * |x| + 1 := by linarith [abs_nonneg x]

theorem representable_nearest {x : ℚ} (h : |nearest x| < 2 ^ 1024) : Representable (nearest x) :=
  ⟨nearest_eq x, h⟩

theorem Representable.neg {x : ℚ} (h : Representable x) : Representable (-x) := by
  obtain ⟨⟨m, e, hm, he, rfl⟩, hx⟩ := h
  refine ⟨⟨-m, e, by rwa [abs_neg], he, ?_⟩, by rwa [abs_neg]⟩
  push_cast
  ring

theorem representable_intCast {n : ℤ} (h : |n| < 2 ^ 53) : Representable n := by
  refine ⟨⟨n, 0, h, by norm_num, by simp⟩, ?_⟩
  have hcast : |(n : ℚ)| < 2 ^ 53 := by exact_mod_cast h
  exact hcast.trans (pow_lt_pow_right₀ (by norm_num) (by norm_num))

/-- A number of the format is its own nearest number. -/
theorem nearest_of_representable {x : ℚ} (h : Representable x) : nearest x = x := by
  obtain ⟨⟨m, e, hm, he, hx⟩, -⟩ := h
  have hpos := spacing_pos x
  have hinteger : ∃ n : ℤ, x = n * spacing x := by
    by_cases hzero : x = 0
    · exact ⟨0, by simp [hzero]⟩
    · have hcast : |(m : ℚ)| < 2 ^ 53 := by exact_mod_cast hm
      have hsmall : |x| < ((2 : ℕ) : ℚ) ^ (53 + e) := by
        rw [hx, abs_mul, abs_of_pos (show (0 : ℚ) < 2 ^ e by positivity)]
        push_cast
        rw [zpow_add₀ (by norm_num), zpow_ofNat]
        exact mul_lt_mul_of_pos_right hcast (by positivity)
      have hlog := (Int.lt_zpow_iff_log_lt (by norm_num) (abs_pos.2 hzero)).1 hsmall
      have hle : max (Int.log 2 |x| - 52) (-1074) ≤ e := by omega
      obtain ⟨k, hk⟩ := Int.le.dest hle
      refine ⟨m * 2 ^ k, ?_⟩
      calc x = m * 2 ^ e := hx
        _ = m * 2 ^ (max (Int.log 2 |x| - 52) (-1074) + (k : ℤ)) := by rw [hk]
        _ = _ := by
            rw [zpow_add₀ (by norm_num), zpow_natCast, spacing]
            push_cast
            ring
  obtain ⟨n, hn⟩ := hinteger
  have hquotient : x / spacing x = n := by
    rw [div_eq_iff hpos.ne']
    exact hn
  rw [nearest, hquotient, roundHalfEven_intCast]
  exact hn.symm

/-- A value of the format. -/
inductive Binary64 where
  | nan
  | infinite (negative : Bool)
  | finite (x : ℚ) (representable : Representable x)

namespace Binary64

/-- The value that a number is rounded to. -/
def round (x : ℚ) : Binary64 :=
  if h : |nearest x| < 2 ^ 1024 then .finite (nearest x) (representable_nearest h)
  else .infinite (decide (x < 0))

def zero : Binary64 := .finite (0 : ℤ) (representable_intCast (by norm_num))

def one : Binary64 := .finite (1 : ℤ) (representable_intCast (by norm_num))

def neg : Binary64 → Binary64
  | .nan => .nan
  | .infinite negative => .infinite !negative
  | .finite x h => .finite (-x) h.neg

@[simp] theorem neg_neg (x : Binary64) : x.neg.neg = x := by
  cases x <;> simp [neg]

def isNegative : Binary64 → Bool
  | .nan => false
  | .infinite negative => negative
  | .finite x _ => decide (x < 0)

def isZero : Binary64 → Bool
  | .finite x _ => decide (x = 0)
  | _ => false

/-- `x < y`. -/
def lt : Binary64 → Binary64 → Bool
  | .finite x _, .finite y _ => decide (x < y)
  | .finite _ _, .infinite negative => !negative
  | .infinite negative, .finite _ _ => negative
  | .infinite negative, .infinite negative' => negative && !negative'
  | _, _ => false

/-- `bound < abs(x)`. -/
def exceeds (bound : ℚ) : Binary64 → Bool
  | .nan => false
  | .infinite _ => true
  | .finite x _ => decide (bound < |x|)

def add : Binary64 → Binary64 → Binary64
  | .finite x _, .finite y _ => round (x + y)
  | .finite _ _, .infinite negative => .infinite negative
  | .infinite negative, .finite _ _ => .infinite negative
  | .infinite negative, .infinite negative' =>
      if negative = negative' then .infinite negative else .nan
  | _, _ => .nan

def sub (x y : Binary64) : Binary64 := add x y.neg

def mul : Binary64 → Binary64 → Binary64
  | .finite x _, .finite y _ => round (x * y)
  | .nan, _ => .nan
  | _, .nan => .nan
  | x, y => if x.isZero || y.isZero then .nan else .infinite (x.isNegative != y.isNegative)

/-- The quotient by a divisor other than zero. -/
def div : Binary64 → Binary64 → Binary64
  | .finite x _, .finite y _ => round (x / y)
  | .finite _ _, .infinite _ => zero
  | .infinite negative, .finite y _ => .infinite (negative != decide (y < 0))
  | _, _ => .nan

/-- The remainder of the division that rounds towards zero, for a divisor other than zero. -/
def fmod : Binary64 → Binary64 → Binary64
  | .finite x _, .finite y _ =>
      round (x - y * (if 0 ≤ x / y then ⌊x / y⌋ else ⌈x / y⌉ : ℤ))
  | .finite x h, .infinite _ => .finite x h
  | _, _ => .nan

end Binary64

end Numeric
