import CommerceAgent.Errors
import CommerceAgent.Numeric.Binary64

/-!
# The calculator

`_evaluate` walks over the syntax tree of an expression. It converts constants to floats,
applies the operators, and checks the range of what a binary operator returns, but not of
a constant. An operator may raise an exception of its own, or return a complex number, with
which the range check raises a `TypeError`. The depth of the recursion is bounded by the
number of frames that the interpreter still has.
-/

namespace CommerceAgent.Calculator

open Numeric

/-- `ast.operator`; `unsupported` stands for the operators that are not in the table. -/
inductive BinaryOperator where
  | add | sub | mult | div | mod | pow | unsupported
  deriving DecidableEq

/-- `ast.unaryop`. -/
inductive UnaryOperator where
  | uAdd | uSub | unsupported
  deriving DecidableEq

/-- The value of an `ast.Constant`; `other` is no number, or a complex one. -/
inductive Constant where
  | int (n : ℤ)
  | bool (b : Bool)
  | float (x : Binary64)
  | other

/-- `ast.expr`. -/
inductive Expr where
  | constant (value : Constant)
  | binOp (left : Expr) (op : BinaryOperator) (right : Expr)
  | unaryOp (op : UnaryOperator) (operand : Expr)
  | other

/-- What the C library computes: the power of a positive number other than 1, `none` for a
range error, and whether a complex power raises an overflow. -/
structure Platform where
  pow : ℚ → ℚ → Option Binary64
  complexPowOverflows : ℚ → ℚ → Bool

/-- What an operator returns. -/
inductive Number where
  | real (x : Binary64)
  | complex

def zeroDivisionError : Exn := .other "ZeroDivisionError"

def overflowError : Exn := .other "OverflowError"

def typeError : Exn := .other "TypeError"

def recursionError : Exn := .other "RecursionError"

def unsupportedSyntax : Exn := .valueError "表达式包含不支持的语法"

def powerOutOfRange : Exn := .valueError "幂运算超出允许范围"

def resultOutOfRange : Exn := .valueError "计算结果超出允许范围"

/-- `float(n)`. -/
def ofInt (n : ℤ) : Except Exn Binary64 :=
  if h : |nearest n| < 2 ^ 1024 then .ok (.finite (nearest n) (representable_nearest h))
  else .error overflowError

/-- `float(node.value)`, where the value is a number. -/
def Constant.toFloat : Constant → Except Exn Binary64
  | .int n => ofInt n
  | .bool b => ofInt (if b then 1 else 0)
  | .float x => .ok x
  | .other => .error unsupportedSyntax

/-- `x ** y` is negative for a negative `x` if `y` is odd. -/
def isOddInteger (y : ℚ) : Bool := decide (y.den = 1) && decide (y.num % 2 = 1)

def truediv (a b : Binary64) : Except Exn Number :=
  if b.isZero then .error zeroDivisionError else .ok (.real (a.div b))

/-- The remainder has the sign of the divisor. -/
def mod (a b : Binary64) : Except Exn Number :=
  if b.isZero then .error zeroDivisionError
  else
    let remainder := a.fmod b
    .ok (.real
      (if remainder.isZero then .zero
      else if b.isNegative != remainder.isNegative then remainder.add b
      else remainder))

def pow (platform : Platform) (a b : Binary64) : Except Exn Number :=
  if b.isZero then .ok (.real .one)
  else
    match a, b with
    | .nan, _ => .ok (.real .nan)
    | .infinite _, .nan => .ok (.real .nan)
    | .finite x _, .nan => .ok (.real (if x = 1 then .one else .nan))
    | .infinite _, .infinite negative =>
        .ok (.real (if negative then .zero else .infinite false))
    | .finite x _, .infinite negative =>
        .ok (.real
          (if |x| = 1 then .one
          else if negative = decide (1 < |x|) then .zero
          else .infinite false))
    | .infinite negative, .finite y _ =>
        .ok (.real (if 0 < y then .infinite (negative && isOddInteger y) else .zero))
    | .finite x _, .finite y _ =>
        if x = 0 then if y < 0 then .error zeroDivisionError else .ok (.real .zero)
        else if x < 0 ∧ y.den ≠ 1 then
          if platform.complexPowOverflows x y then .error overflowError else .ok .complex
        else if |x| = 1 then
          .ok (.real (if decide (x < 0) && isOddInteger y then .neg .one else .one))
        else
          match platform.pow |x| y with
          | none => .error overflowError
          | some power =>
              .ok (.real (if decide (x < 0) && isOddInteger y then power.neg else power))

/-- `_binary_operators`. -/
def binaryOperators (platform : Platform) (a b : Binary64) :
    BinaryOperator → Except Exn Number
  | .add => .ok (.real (a.add b))
  | .sub => .ok (.real (a.sub b))
  | .mult => .ok (.real (a.mul b))
  | .div => truediv a b
  | .mod => mod a b
  | .pow => pow platform a b
  | .unsupported => .error unsupportedSyntax

/-- `1e100`. -/
def limit : Binary64 := .round (10 ^ 100)

/-- `-1e100 < result < 1e100`. -/
def inRange (result : Binary64) : Bool := limit.neg.lt result && result.lt limit

/-- What follows the evaluation of the operands of a binary operator. -/
def applyBinary (platform : Platform) (op : BinaryOperator) (left right : Binary64) :
    Except Exn Binary64 :=
  if op = .pow ∧ (left.exceeds 1000000 || right.exceeds 12) then .error powerOutOfRange
  else
    match binaryOperators platform left right op with
    | .error exc => .error exc
    | .ok .complex => .error typeError
    | .ok (.real result) => if inRange result then .ok result else .error resultOutOfRange

/-- `_evaluate`, with so many frames left. -/
def evaluate (platform : Platform) : ℕ → Expr → Except Exn Binary64
  | 0, _ => .error recursionError
  | _ + 1, .constant value => value.toFloat
  | frames + 1, .binOp left op right =>
      if op = .unsupported then .error unsupportedSyntax
      else
        match evaluate platform frames left with
        | .error exc => .error exc
        | .ok a =>
            match evaluate platform frames right with
            | .error exc => .error exc
            | .ok b => applyBinary platform op a b
  | frames + 1, .unaryOp op operand =>
      match op with
      | .uAdd => evaluate platform frames operand
      | .uSub => (evaluate platform frames operand).map Binary64.neg
      | .unsupported => .error unsupportedSyntax
  | _ + 1, .other => .error unsupportedSyntax

/-- A real number between the limits. -/
def Bounded (v : Binary64) : Prop := ∃ x h, v = .finite x h ∧ |x| < nearest (10 ^ 100)

/-- A result that the tool may hand on: a number between the limits, or a `ValueError`. -/
def Safe : Except Exn Binary64 → Prop
  | .ok v => Bounded v
  | .error exc => ∃ message, exc = .valueError message

/-- The constant is converted without an overflow. -/
def Constant.Convertible : Constant → Prop
  | .int n => |nearest n| < 2 ^ 1024
  | _ => True

/-- The operator has a real value, or the guard refuses the operands: a divisor is not zero,
and within the guard zero is raised to no negative power, a negative number to no fractional
one, and no power overflows. -/
def Admissible (platform : Platform) : BinaryOperator → Binary64 → Binary64 → Prop
  | .div, _, b => b.isZero = false
  | .mod, _, b => b.isZero = false
  | .pow, .finite x _, .finite y _ =>
      |x| ≤ 1000000 → |y| ≤ 12 → y ≠ 0 →
        (x = 0 → 0 < y) ∧ (x < 0 → y.den = 1) ∧ (x ≠ 0 → |x| ≠ 1 → platform.pow |x| y ≠ none)
  | _, _, _ => True

/-- The value of an expression. -/
inductive Denotes (platform : Platform) : Expr → Binary64 → Prop
  | constant {value v} : value.toFloat = .ok v → Denotes platform (.constant value) v
  | binOp {left op right a b v} : op ≠ .unsupported → Denotes platform left a →
      Denotes platform right b → applyBinary platform op a b = .ok v →
      Denotes platform (.binOp left op right) v
  | uAdd {operand v} : Denotes platform operand v → Denotes platform (.unaryOp .uAdd operand) v
  | uSub {operand v} :
      Denotes platform operand v → Denotes platform (.unaryOp .uSub operand) v.neg

def Expr.height : Expr → ℕ
  | .constant _ => 1
  | .binOp left _ right => max left.height right.height + 1
  | .unaryOp _ operand => operand.height + 1
  | .other => 1

/-- Nothing that the evaluation reaches goes wrong: it stays within the frames, converts no
constant that is too large, and applies the operators to operands that they admit. -/
def Tame (platform : Platform) : ℕ → Expr → Prop
  | 0, _ => False
  | _ + 1, .constant value => value.Convertible
  | frames + 1, .binOp left op right =>
      op = .unsupported ∨
        Tame platform frames left ∧ ∀ a, Denotes platform left a →
          Tame platform frames right ∧ ∀ b, Denotes platform right b → Admissible platform op a b
  | frames + 1, .unaryOp op operand => op = .unsupported ∨ Tame platform frames operand
  | _ + 1, .other => True

/-- The expression without its outer signs. -/
def Expr.unsigned : Expr → Expr
  | .unaryOp .uAdd operand => operand.unsigned
  | .unaryOp .uSub operand => operand.unsigned
  | e => e

/-- If the expression is a constant with signs, then the constant is between the limits. -/
def ConstantBounded (e : Expr) : Prop :=
  ∀ value v, e.unsigned = .constant value → value.toFloat = .ok v → Bounded v

theorem nearest_limit_lt : |nearest (10 ^ 100)| < 2 ^ 1024 := by
  have hbound := abs_nearest_le (10 ^ 100)
  rw [abs_of_pos (show (0 : ℚ) < 10 ^ 100 by positivity)] at hbound
  have hlarge : (2 : ℚ) * 10 ^ 100 + 1 < 16 ^ 101 := by norm_num
  have hpower : (16 : ℚ) ^ 101 < 2 ^ 1024 := by
    calc (16 : ℚ) ^ 101 = (2 ^ 4) ^ 101 := by norm_num
      _ = 2 ^ (4 * 101) := (pow_mul 2 4 101).symm
      _ < 2 ^ 1024 := pow_lt_pow_right₀ (by norm_num) (by norm_num)
  exact (hbound.trans_lt hlarge).trans hpower

theorem limit_eq : limit = .finite (nearest (10 ^ 100)) (representable_nearest nearest_limit_lt) :=
  dif_pos nearest_limit_lt

/-- The range check lets through what is between the limits. -/
theorem inRange_iff (v : Binary64) : inRange v = true ↔ Bounded v := by
  unfold inRange
  rw [limit_eq]
  constructor
  · intro h
    cases v with
    | nan => simp [Binary64.lt, Binary64.neg] at h
    | infinite negative => cases negative <;> simp [Binary64.lt, Binary64.neg] at h
    | finite x hx =>
        simp only [Binary64.lt, Binary64.neg, Bool.and_eq_true, decide_eq_true_eq] at h
        exact ⟨x, hx, rfl, abs_lt.2 h⟩
  · rintro ⟨x, hx, rfl, habs⟩
    simpa [Binary64.lt, Binary64.neg] using abs_lt.1 habs

theorem Bounded.neg {v : Binary64} (h : Bounded v) : Bounded v.neg := by
  obtain ⟨x, hx, rfl, habs⟩ := h
  exact ⟨-x, hx.neg, rfl, by rwa [abs_neg]⟩

theorem bounded_neg_iff (v : Binary64) : Bounded v.neg ↔ Bounded v := by
  constructor
  · intro h
    rw [← v.neg_neg]
    exact h.neg
  · exact Bounded.neg

section

variable {platform : Platform} {op : BinaryOperator} {a b v : Binary64} {frames : ℕ} {e : Expr}

/-- Without the guard, the operator decides; the range check raises a `ValueError` only. -/
theorem safe_applyBinary_iff (hguard : ¬ (op = .pow ∧ (a.exceeds 1000000 || b.exceeds 12))) :
    Safe (applyBinary platform op a b) ↔
      (∃ result, binaryOperators platform a b op = .ok (.real result)) ∨
      ∃ message, binaryOperators platform a b op = .error (.valueError message) := by
  unfold applyBinary
  rw [if_neg hguard]
  cases hresult : binaryOperators platform a b op with
  | error exc => simp [Safe]
  | ok number =>
      cases number with
      | complex => simp [Safe, typeError]
      | real result =>
          by_cases hrange : inRange result = true
          · simpa [Safe, hrange] using (inRange_iff result).1 hrange
          · simp [Safe, hrange, resultOutOfRange]

theorem safe_truediv_iff :
    Safe (applyBinary platform .div a b) ↔ Admissible platform .div a b := by
  rw [safe_applyBinary_iff (by simp)]
  by_cases hzero : b.isZero = true
  · simp [binaryOperators, truediv, Admissible, hzero, zeroDivisionError]
  · simp [binaryOperators, truediv, Admissible, hzero]

theorem safe_mod_iff : Safe (applyBinary platform .mod a b) ↔ Admissible platform .mod a b := by
  rw [safe_applyBinary_iff (by simp)]
  by_cases hzero : b.isZero = true
  · simp [binaryOperators, mod, Admissible, hzero, zeroDivisionError]
  · simp [binaryOperators, mod, Admissible, hzero]

/-- The power of finite operands that pass the guard. -/
theorem pow_finite_iff {x y : ℚ} (hx : Representable x) (hy : Representable y) (hzero : y ≠ 0) :
    ((∃ result, pow platform (.finite x hx) (.finite y hy) = .ok (.real result)) ∨
      ∃ message, pow platform (.finite x hx) (.finite y hy) = .error (.valueError message)) ↔
    (x = 0 → 0 < y) ∧ (x < 0 → y.den = 1) ∧ (x ≠ 0 → |x| ≠ 1 → platform.pow |x| y ≠ none) := by
  have hexponent : (Binary64.finite y hy).isZero = false := by simp [Binary64.isZero, hzero]
  simp only [pow, hexponent, Bool.false_eq_true, if_false]
  by_cases hbase : x = 0
  · -- Zero: only the sign of the exponent matters.
    rcases lt_or_gt_of_ne hzero with hneg | hpos
    · simp [hbase, hneg, hneg.not_gt, zeroDivisionError]
    · simp [hbase, hpos, hpos.not_gt]
  · by_cases hfraction : x < 0 ∧ y.den ≠ 1
    · -- A complex power.
      cases hoverflow : platform.complexPowOverflows x y <;>
        simp [hbase, hfraction, overflowError]
    · have hinteger : x < 0 → y.den = 1 := by
        intro hneg
        by_contra hden
        exact hfraction ⟨hneg, hden⟩
      rw [if_neg hbase, if_neg hfraction]
      by_cases hunit : |x| = 1
      · simpa [hunit, hbase] using hinteger
      · cases hpower : platform.pow |x| y with
        | none => simp [hunit, hbase, overflowError]
        | some power => simpa [hunit, hbase, hpower] using hinteger

theorem safe_pow_iff : Safe (applyBinary platform .pow a b) ↔ Admissible platform .pow a b := by
  by_cases hguard : a.exceeds 1000000 || b.exceeds 12
  · -- The guard refuses the operands.
    have hsafe : Safe (applyBinary platform .pow a b) := by
      simp only [applyBinary, hguard, and_self, if_true]
      exact ⟨_, rfl⟩
    have hadmissible : Admissible platform .pow a b := by
      cases a <;> cases b <;> try trivial
      intro hx hy
      simp [Binary64.exceeds, hx.not_gt, hy.not_gt] at hguard
    exact iff_of_true hsafe hadmissible
  · rw [safe_applyBinary_iff (by simpa using hguard)]
    cases a with
    | nan => cases b <;> simp [binaryOperators, pow, Admissible] <;> split <;> simp
    | infinite negative => simp [Binary64.exceeds] at hguard
    | finite x hx =>
        cases b with
        | nan => simp [binaryOperators, pow, Admissible, Binary64.isZero]
        | infinite negative => simp [Binary64.exceeds] at hguard
        | finite y hy =>
            by_cases hzero : y = 0
            · simp [binaryOperators, pow, Admissible, Binary64.isZero, hzero]
            · have hbounds : |x| ≤ 1000000 ∧ |y| ≤ 12 := by
                simpa [Binary64.exceeds] using hguard
              simp only [binaryOperators]
              rw [pow_finite_iff hx hy hzero]
              simp [Admissible, hbounds.1, hbounds.2, hzero]

/-- Applying an operator is safe exactly for operands that it admits. -/
theorem safe_applyBinary : Safe (applyBinary platform op a b) ↔ Admissible platform op a b := by
  cases op with
  | add => exact iff_of_true ((safe_applyBinary_iff (by simp)).2 (.inl ⟨_, rfl⟩)) trivial
  | sub => exact iff_of_true ((safe_applyBinary_iff (by simp)).2 (.inl ⟨_, rfl⟩)) trivial
  | mult => exact iff_of_true ((safe_applyBinary_iff (by simp)).2 (.inl ⟨_, rfl⟩)) trivial
  | div => exact safe_truediv_iff
  | mod => exact safe_mod_iff
  | pow => exact safe_pow_iff
  | unsupported => exact iff_of_true ((safe_applyBinary_iff (by simp)).2 (.inr ⟨_, rfl⟩)) trivial

theorem bounded_of_applyBinary (h : applyBinary platform op a b = .ok v) : Bounded v := by
  unfold applyBinary at h
  split at h
  · cases h
  · split at h
    · cases h
    · cases h
    · split at h
      · next hrange =>
          cases h
          exact (inRange_iff v).1 hrange
      · cases h

/-- Evaluation returns the value of the expression if there are enough frames. -/
theorem evaluate_of_denotes (h : Denotes platform e v) (hframes : e.height ≤ frames) :
    evaluate platform frames e = .ok v := by
  induction h generalizing frames with
  | constant hvalue =>
      cases frames with
      | zero => cases hframes
      | succ frames => exact hvalue
  | binOp hop _ _ hresult ihleft ihright =>
      cases frames with
      | zero => cases hframes
      | succ frames =>
          simp only [Expr.height] at hframes
          have hleft := @ihleft frames (by omega)
          have hright := @ihright frames (by omega)
          simpa only [evaluate, if_neg hop, hleft, hright] using hresult
  | uAdd _ ih =>
      cases frames with
      | zero => cases hframes
      | succ frames => exact ih (by simpa [Expr.height] using hframes)
  | uSub _ ih =>
      cases frames with
      | zero => cases hframes
      | succ frames =>
          have hoperand := @ih frames (by simpa [Expr.height] using hframes)
          simp only [evaluate, hoperand]
          rfl

/-- What evaluation returns is the value of the expression. -/
theorem denotes_of_evaluate (h : evaluate platform frames e = .ok v) : Denotes platform e v := by
  induction frames generalizing e v with
  | zero => cases h
  | succ frames ih =>
      cases e with
      | constant value => exact .constant h
      | binOp left op right =>
          simp only [evaluate] at h
          split at h
          · cases h
          · next hop =>
              split at h
              · cases h
              · next a hleft =>
                  split at h
                  · cases h
                  · next b hright => exact .binOp hop (ih hleft) (ih hright) h
      | unaryOp op operand =>
          cases op with
          | uAdd => exact .uAdd (ih h)
          | uSub =>
              simp only [evaluate] at h
              cases hoperand : evaluate platform frames operand with
              | error exc =>
                  rw [hoperand] at h
                  cases h
              | ok u =>
                  rw [hoperand] at h
                  cases h
                  exact .uSub (ih hoperand)
          | unsupported => cases h
      | other => cases h

/-- A tame expression that has a value is evaluated within the frames. -/
theorem Tame.height_le (h : Tame platform frames e) (hvalue : Denotes platform e v) :
    e.height ≤ frames := by
  induction hvalue generalizing frames with
  | constant _ =>
      cases frames with
      | zero => cases h
      | succ frames => exact Nat.succ_le_succ (Nat.zero_le frames)
  | binOp hop hleft _ _ ihleft ihright =>
      cases frames with
      | zero => cases h
      | succ frames =>
          obtain ⟨htame, hrest⟩ := h.resolve_left hop
          exact Nat.succ_le_succ (max_le (ihleft htame) (ihright (hrest _ hleft).1))
  | uAdd _ ih =>
      cases frames with
      | zero => cases h
      | succ frames => exact Nat.succ_le_succ (ih (h.resolve_left (by decide)))
  | uSub _ ih =>
      cases frames with
      | zero => cases h
      | succ frames => exact Nat.succ_le_succ (ih (h.resolve_left (by decide)))

theorem Tame.evaluate_eq (h : Tame platform frames e) (hvalue : Denotes platform e v) :
    evaluate platform frames e = .ok v :=
  evaluate_of_denotes hvalue (h.height_le hvalue)

/-- No exception but a `ValueError` leaves the evaluation. -/
def Contains (outcome : Except Exn Binary64) : Prop :=
  ∀ exc, outcome = .error exc → ∃ message, exc = .valueError message

theorem safe_iff_contains (outcome : Except Exn Binary64) :
    Safe outcome ↔ Contains outcome ∧ ∀ v, outcome = .ok v → Bounded v := by
  cases outcome with
  | ok v => simp [Safe, Contains]
  | error exc => simp [Safe, Contains]

theorem contains_applyBinary_iff :
    Contains (applyBinary platform op a b) ↔ Admissible platform op a b := by
  rw [← safe_applyBinary, safe_iff_contains]
  exact (and_iff_left fun _ h => bounded_of_applyBinary h).symm

/-- An exception of the first step is handed on. -/
theorem contains_bind_iff (outcome : Except Exn Binary64) (next : Binary64 → Except Exn Binary64) :
    Contains (outcome.bind next) ↔
      Contains outcome ∧ ∀ v, outcome = .ok v → Contains (next v) := by
  cases outcome with
  | error exc => simp [Except.bind, Contains]
  | ok v => simp [Except.bind, Contains]

theorem evaluate_binOp {left right : Expr} (hop : op ≠ .unsupported) :
    evaluate platform (frames + 1) (.binOp left op right) =
      (evaluate platform frames left).bind fun a =>
        (evaluate platform frames right).bind fun b => applyBinary platform op a b := by
  rw [evaluate, if_neg hop]
  cases evaluate platform frames left with
  | error exc => rfl
  | ok a => cases evaluate platform frames right <;> rfl

/-- The values of a tame expression are what its evaluation returns. -/
theorem Tame.forall_denotes_iff (h : Tame platform frames e) (p : Binary64 → Prop) :
    (∀ v, Denotes platform e v → p v) ↔ ∀ v, evaluate platform frames e = .ok v → p v := by
  constructor
  · intro hall v hv
    exact hall v (denotes_of_evaluate hv)
  · intro hall v hv
    exact hall v (h.evaluate_eq hv)

/-- Small integers are converted exactly. -/
theorem ofInt_of_lt {n : ℤ} (hn : |n| < 2 ^ 53) :
    ofInt n = .ok (.finite n (representable_intCast hn)) := by
  have hnearest := nearest_of_representable (representable_intCast hn)
  have hlt : |nearest n| < 2 ^ 1024 := by
    rw [hnearest]
    exact (representable_intCast hn).2
  rw [ofInt, dif_pos hlt]
  congr 2

theorem contains_ofInt_iff (n : ℤ) : Contains (ofInt n) ↔ |nearest n| < 2 ^ 1024 := by
  unfold ofInt
  by_cases h : |nearest n| < 2 ^ 1024
  · simp [h, Contains]
  · simp [h, Contains, overflowError]

theorem contains_toFloat_iff (value : Constant) : Contains value.toFloat ↔ value.Convertible := by
  have hsmall : ∀ n : ℤ, |n| < 2 ^ 53 → Contains (ofInt n) := by
    intro n hn exc h
    rw [ofInt_of_lt hn] at h
    cases h
  cases value with
  | int n => exact contains_ofInt_iff n
  | bool b =>
      refine iff_of_true (hsmall _ ?_) trivial
      cases b <;> norm_num
  | float x =>
      refine iff_of_true ?_ trivial
      intro exc h
      cases h
  | other =>
      refine iff_of_true ?_ trivial
      intro exc h
      cases h
      exact ⟨_, rfl⟩

/-- Evaluation contains every exception exactly if the expression is tame. -/
theorem contains_evaluate_iff (e : Expr) :
    Contains (evaluate platform frames e) ↔ Tame platform frames e := by
  induction e generalizing frames with
  | constant value =>
      cases frames with
      | zero => simp [evaluate, Tame, Contains, recursionError]
      | succ frames => exact contains_toFloat_iff value
  | binOp left op right ihleft ihright =>
      cases frames with
      | zero => simp [evaluate, Tame, Contains, recursionError]
      | succ frames =>
          by_cases hop : op = .unsupported
          · simp [evaluate, Tame, Contains, hop, unsupportedSyntax]
          · rw [evaluate_binOp hop, contains_bind_iff, Tame, or_iff_right hop, ihleft]
            apply and_congr_right
            intro htame
            rw [htame.forall_denotes_iff]
            apply forall₂_congr
            intro a _
            rw [contains_bind_iff, ihright]
            apply and_congr_right
            intro htame'
            rw [htame'.forall_denotes_iff]
            apply forall₂_congr
            intro b _
            exact contains_applyBinary_iff
  | unaryOp op operand ih =>
      cases frames with
      | zero => simp [evaluate, Tame, Contains, recursionError]
      | succ frames =>
          cases op with
          | uAdd => simpa [Tame, evaluate] using ih
          | uSub =>
              have hneg : evaluate platform (frames + 1) (.unaryOp .uSub operand) =
                  (evaluate platform frames operand).bind fun v => .ok v.neg := by
                rw [evaluate]
                cases evaluate platform frames operand <;> rfl
              rw [hneg, contains_bind_iff, ih]
              simp [Tame, Contains]
          | unsupported => simp [evaluate, Tame, Contains, unsupportedSyntax]
  | other =>
      cases frames with
      | zero => simp [evaluate, Tame, Contains, recursionError]
      | succ frames => simp [evaluate, Tame, Contains, unsupportedSyntax]

/-- The value of an expression is between the limits, unless it is a constant with signs. -/
theorem bounded_iff_constantBounded (h : Denotes platform e v) : Bounded v ↔ ConstantBounded e := by
  induction h with
  | @constant value v hvalue =>
      constructor
      · intro hbounded value' v' hsame hvalue'
        cases hsame
        rw [hvalue] at hvalue'
        cases hvalue'
        exact hbounded
      · intro hconstant
        exact hconstant value v rfl hvalue
  | binOp _ _ _ hresult _ _ =>
      refine iff_of_true (bounded_of_applyBinary hresult) ?_
      intro value v hsame
      cases hsame
  | uAdd _ ih => exact ih
  | uSub _ ih => exact (bounded_neg_iff _).trans ih

/-- A constant with signs has a value. -/
theorem exists_denotes {value : Constant} (hsame : e.unsigned = .constant value)
    (hvalue : value.toFloat = .ok v) : ∃ w, Denotes platform e w := by
  induction e with
  | constant value' =>
      cases hsame
      exact ⟨v, .constant hvalue⟩
  | binOp left op right _ _ => cases hsame
  | unaryOp op operand ih =>
      cases op with
      | uAdd =>
          obtain ⟨w, hw⟩ := ih hsame
          exact ⟨w, .uAdd hw⟩
      | uSub =>
          obtain ⟨w, hw⟩ := ih hsame
          exact ⟨w.neg, .uSub hw⟩
      | unsupported => cases hsame
  | other => cases hsame

/-- What a tame expression returns is between the limits exactly if its constant is. -/
theorem Tame.bounded_iff (h : Tame platform frames e) :
    (∀ v, evaluate platform frames e = .ok v → Bounded v) ↔ ConstantBounded e := by
  constructor
  · intro hall value v hsame hvalue
    have hexists : ∃ w, Denotes platform e w := exists_denotes hsame hvalue
    obtain ⟨w, hw⟩ := hexists
    exact (bounded_iff_constantBounded hw).1 (hall w (h.evaluate_eq hw)) value v hsame hvalue
  · intro hconstant v hv
    exact (bounded_iff_constantBounded (denotes_of_evaluate hv)).2 hconstant

end

/-- For every expression and every number of frames: the evaluation returns a number between
the limits or raises a `ValueError`, exactly if nothing that it reaches goes wrong and the
expression is no constant, with signs, beyond the limits. -/
theorem evaluate_safe_iff (platform : Platform) (frames : ℕ) (e : Expr) :
    Safe (evaluate platform frames e) ↔ Tame platform frames e ∧ ConstantBounded e := by
  rw [safe_iff_contains, contains_evaluate_iff]
  exact and_congr_right Tame.bounded_iff

/-- A C library with correctly rounded powers of whole exponents. -/
def wholePowers : Platform where
  pow x y :=
    match Binary64.round (x ^ y.num) with
    | .infinite _ => none
    | power => some power
  complexPowOverflows _ _ := false

/-- `1 / 0` raises a `ZeroDivisionError`, and `1e999` is returned as infinity. -/
theorem evaluate_unsafe :
    evaluate wholePowers 1000 (.binOp (.constant (.int 1)) .div (.constant (.int 0))) =
        .error zeroDivisionError ∧
      ¬ Safe (evaluate wholePowers 1000
        (.binOp (.constant (.int 1)) .div (.constant (.int 0)))) ∧
      evaluate wholePowers 1000 (.constant (.float (.infinite false))) = .ok (.infinite false) ∧
      ¬ Safe (evaluate wholePowers 1000 (.constant (.float (.infinite false)))) := by
  have hdivision : evaluate wholePowers 1000
      (.binOp (.constant (.int 1)) .div (.constant (.int 0))) = .error zeroDivisionError := by
    rw [evaluate_binOp (by decide)]
    simp only [evaluate, Constant.toFloat, ofInt_of_lt (show |(1 : ℤ)| < 2 ^ 53 by norm_num),
      ofInt_of_lt (show |(0 : ℤ)| < 2 ^ 53 by norm_num)]
    simp [Except.bind, applyBinary, binaryOperators, truediv, Binary64.isZero]
  refine ⟨hdivision, ?_, rfl, ?_⟩
  · rw [hdivision]
    rintro ⟨message, h⟩
    cases h
  · rintro ⟨x, hx, h, -⟩
    cases h

end CommerceAgent.Calculator
