import BinaryPoint.Binary64.Arithmetic
import Mathlib.Data.Rat.Floor
import Mathlib.Tactic.Linarith
import Mathlib.Tactic.Positivity
import Mathlib.Tactic.Ring

/-! # The numbers that doubles denote

Comparisons, signs and the integer part of finite doubles are those of the
numbers behind them. `Representable` tells which rational numbers are those of a
double: 53 bits at an exponent that the format has.
-/

namespace BinaryPoint.Binary64

/-! ## Value and order -/

/-- A double is its significand times a power of two; the others count as zero. -/
theorem toRat_eq_signedMant (x : Binary64) : x.toRat = x.signedMant * 2 ^ x.exponent := by
  cases x with
  | nan => simp [toRat, signedMant]
  | inf => simp [toRat, signedMant]
  | finite negative mant exp _ =>
    cases negative <;> simp [toRat, signedMant, exponent]

/-- Two finite doubles are compared as numbers. -/
theorem lt_iff_toRat {x y : Binary64} (hx : x.isFinite) (hy : y.isFinite) :
    x.lt y ↔ x.toRat < y.toRat := by
  cases x with
  | nan => simp [isFinite] at hx
  | inf => simp [isFinite] at hx
  | finite n m e h =>
    cases y with
    | nan => simp [isFinite] at hy
    | inf => simp [isFinite] at hy
    | finite n' m' e' h' =>
      simp only [lt, compare?, decide_eq_true_eq, Option.some.injEq]
      split
      · simp_all
      · split <;> simp_all

@[simp] theorem toRat_zero (negative : Bool) : (zero negative).toRat = 0 := by
  cases negative <;> simp [zero, toRat]

@[simp] theorem isFinite_zero (negative : Bool) : (zero negative).isFinite := rfl

@[simp] theorem isFinite_neg (x : Binary64) : (-x).isFinite = x.isFinite := by
  cases x <;> rfl

@[simp] theorem toRat_neg (x : Binary64) : (-x).toRat = -x.toRat := by
  cases x with
  | nan => rfl
  | inf => rfl
  | finite negative mant exp _ =>
    show (finite (!negative) mant exp _).toRat = -(finite negative mant exp _).toRat
    cases negative <;> simp [toRat]

theorem isPositive_iff {x : Binary64} (hx : x.isFinite) : x.isPositive ↔ 0 < x.toRat := by
  rw [isPositive, lt_iff_toRat (isFinite_zero false) hx, toRat_zero]

/-- A double is negative as its number is; the negative zero is not. -/
theorem isNegative_iff {x : Binary64} (hx : x.isFinite) : x.isNegative ↔ x.toRat < 0 := by
  rw [isNegative, lt_iff_toRat hx (isFinite_zero false), toRat_zero]

theorem ceil_eq (x : Binary64) : x.ceil = ⌈x.toRat⌉ := by
  apply le_antisymm
  · rw [ceil, Rat.ceil_le_iff]
    exact Int.le_ceil x.toRat
  · rw [Int.ceil_le]
    exact Rat.ceil_le_iff.mp le_rfl

/-! ## Representable numbers -/

/-- The numbers of finite doubles: 53 bits at one of the exponents of the format. -/
def Representable (q : ℚ) : Prop :=
  ∃ n e : ℤ, q = n * 2 ^ e ∧ |n| < 2 ^ precision ∧ -1074 ≤ e ∧ e ≤ 971

/-- The significand is an integer of 53 bits whatever the sign. -/
theorem abs_signedMant_lt (x : Binary64) : |x.signedMant| < 2 ^ precision := by
  cases x with
  | nan => simp [signedMant]
  | inf => simp [signedMant]
  | finite negative mant exp h =>
    have hmant : (mant : ℤ) < 2 ^ precision := by exact_mod_cast h.1
    cases negative <;> simpa [signedMant] using hmant

theorem exponent_bounds (x : Binary64) : -1074 ≤ x.exponent ∧ x.exponent ≤ 971 := by
  cases x with
  | nan => simp [exponent]
  | inf => simp [exponent]
  | finite _ _ _ h => exact ⟨h.2.1, h.2.2.1⟩

theorem representable_toRat (x : Binary64) : Representable x.toRat :=
  ⟨x.signedMant, x.exponent, toRat_eq_signedMant x, abs_signedMant_lt x, exponent_bounds x⟩

theorem Representable.neg {q : ℚ} (h : Representable q) : Representable (-q) := by
  obtain ⟨n, e, rfl, hn, he⟩ := h
  exact ⟨-n, e, by push_cast; ring, by rwa [abs_neg], he⟩

/-- Also `2^53` itself may stand before a power of two that is not the last one. -/
theorem representable_mul_zpow {n e : ℤ} (hn : |n| ≤ 2 ^ precision) (hlow : -1074 ≤ e)
    (hhigh : e ≤ 970) : Representable (n * 2 ^ e) := by
  rcases hn.lt_or_eq with hlt | heq
  · exact ⟨n, e, rfl, hlt, hlow, by omega⟩
  · -- the power of two is half of it, one place higher
    have hhalf : Representable (2 ^ precision * 2 ^ e) := by
      refine ⟨2 ^ 52, e + 1, ?_, by norm_num, by omega, by omega⟩
      rw [zpow_add_one₀ two_ne_zero]
      push_cast
      ring
    rcases (abs_eq (by positivity)).mp heq with h | h
    · rw [h]
      exact_mod_cast hhalf
    · rw [h]
      push_cast
      rw [neg_mul]
      exact hhalf.neg

theorem representable_two_zpow {e : ℤ} (hlow : -1074 ≤ e) (hhigh : e ≤ 1023) :
    Representable (2 ^ e) := by
  by_cases h : e ≤ 970
  · simpa using representable_mul_zpow (n := 1) (by norm_num) hlow h
  · refine ⟨2 ^ 52, e - 52, ?_, by norm_num, by omega, by omega⟩
    rw [zpow_sub₀ two_ne_zero]
    push_cast
    ring

theorem representable_intCast {n : ℤ} (h : |n| ≤ 2 ^ precision) : Representable n := by
  simpa using representable_mul_zpow h (e := 0) (by norm_num) (by norm_num)

end BinaryPoint.Binary64
