import BinaryPoint.Rounding
import BinaryPoint.Proofs.Binary64.Value
import Mathlib.Tactic.FieldSimp

/-! # Rounding half up as a function of the number

`shiftRound` and `scaled` work on integers and on significands. Here both are
read as one function of the rational number behind them, `halfUp`, so that
rounding is seen not to depend on how the number is written:

* `shiftRound_eq_floor`: a shift rounds the exact quotient;
* `scaled_eq_halfUp`: a double is rounded as the number that it denotes;
* `halfUp_nearest`: no multiple of the step is nearer than the one taken, and
  since the multiples of a step are among those of a finer one, the error never
  grows with the width (`halfUpError_antitone`).
-/

namespace BinaryPoint

/-- The multiple of `2^-bits` that a number is rounded to, as its coefficient. -/
def halfUp (q : ℚ) (bits : ℕ) : ℤ := ⌊q * 2 ^ bits + 1 / 2⌋

/-- How far a number is from its rounding to `bits` fractional bits. -/
def halfUpError (q : ℚ) (bits : ℕ) : ℚ := |(halfUp q bits : ℚ) / 2 ^ bits - q|

/-! ## Integers and doubles -/

/-- A shift to the right rounds the exact quotient half up. The remainder is at least
half of the unit just when adding a half carries into the quotient. -/
theorem shiftRound_of_pos (raw : ℤ) {k : ℕ} (hk : 0 < k) :
    shiftRound raw k = ⌊(raw : ℚ) / 2 ^ k + 1 / 2⌋ := by
  obtain ⟨j, rfl⟩ : ∃ j, k = j + 1 := ⟨k - 1, by omega⟩
  have hpos : ¬ ((j + 1 : ℕ) : ℤ) ≤ 0 := by omega
  simp only [shiftRound, hpos, if_false, Int.toNat_natCast, Nat.add_sub_cancel]
  have hunit : (2 : ℤ) ^ (j + 1) = 2 * 2 ^ j := by rw [pow_succ, mul_comm]
  have hhalf : (0 : ℤ) < 2 ^ j := by positivity
  have hsplit := Int.emod_add_mul_ediv raw (2 ^ (j + 1))
  have hnonneg := Int.emod_nonneg raw (b := 2 ^ (j + 1)) (by omega)
  have hlt := Int.emod_lt_of_pos raw (b := 2 ^ (j + 1)) (by omega)
  generalize raw / 2 ^ (j + 1) = quotient at *
  generalize raw % 2 ^ (j + 1) = remainder at *
  -- the exact quotient is the integer one and a fraction of the unit
  have hraw : (raw : ℚ) / 2 ^ (j + 1) = quotient + remainder / (2 * 2 ^ j) := by
    have hsplitQ : (raw : ℚ) = remainder + 2 ^ (j + 1) * quotient := by exact_mod_cast hsplit.symm
    rw [hsplitQ, pow_succ]
    field_simp
    ring
  have hhalfQ : (0 : ℚ) < 2 * 2 ^ j := by positivity
  symm
  rw [Int.floor_eq_iff, hraw]
  by_cases hup : (2 : ℤ) ^ j ≤ remainder
  · -- the fraction is a half at least, and below one
    rw [if_pos hup]
    have hlow : (1 : ℚ) / 2 ≤ remainder / (2 * 2 ^ j) := by
      rw [div_le_div_iff₀ two_pos hhalfQ]
      have : ((2 : ℚ) ^ j) ≤ remainder := by exact_mod_cast hup
      linarith
    have hhigh : (remainder : ℚ) / (2 * 2 ^ j) < 1 := by
      rw [div_lt_one hhalfQ]
      have : remainder < 2 * 2 ^ j := by omega
      exact_mod_cast this
    push_cast
    constructor <;> linarith
  · -- it is below a half
    rw [if_neg hup]
    have hlow : (0 : ℚ) ≤ remainder / (2 * 2 ^ j) := by
      apply div_nonneg _ hhalfQ.le
      exact_mod_cast hnonneg
    have hhigh : (remainder : ℚ) / (2 * 2 ^ j) < 1 / 2 := by
      rw [div_lt_div_iff₀ hhalfQ two_pos]
      have : (remainder : ℚ) < 2 ^ j := by exact_mod_cast not_le.mp hup
      linarith
    constructor <;> linarith

/-- A shift by any amount rounds the exact quotient half up; a shift to the left has
nothing to round. -/
theorem shiftRound_eq_floor (raw shift : ℤ) :
    shiftRound raw shift = ⌊(raw : ℚ) * 2 ^ (-shift) + 1 / 2⌋ := by
  by_cases hshift : shift ≤ 0
  · obtain ⟨k, rfl⟩ : ∃ k : ℕ, shift = -k := ⟨(-shift).toNat, by omega⟩
    have hexact : (raw : ℚ) * 2 ^ (- -(k : ℤ)) = ((raw * 2 ^ k : ℤ) : ℚ) := by
      rw [neg_neg, zpow_natCast]
      push_cast
      ring
    rw [hexact, Int.floor_intCast_add]
    have hnone : ⌊(1 : ℚ) / 2⌋ = 0 := by norm_num
    rw [hnone, add_zero]
    simp [shiftRound]
  · obtain ⟨k, rfl⟩ : ∃ k : ℕ, shift = k := ⟨shift.toNat, by omega⟩
    rw [shiftRound_of_pos raw (by omega), zpow_neg, zpow_natCast, div_eq_mul_inv]

namespace Binary64

/-- Rounding a double depends only on the number that it denotes. -/
theorem scaled_eq_halfUp (x : Binary64) (bits : ℕ) : x.scaled bits = halfUp x.toRat bits := by
  have hpow : (2 : ℚ) ^ (-(-x.exponent - bits)) = 2 ^ x.exponent * 2 ^ bits := by
    rw [← zpow_natCast, ← zpow_add₀ two_ne_zero]
    congr 1
    ring
  rw [scaled, shiftRound_eq_floor, halfUp, toRat_eq_signedMant, hpow, mul_assoc]

theorem roundingError_eq_halfUpError (x : Binary64) (bits : ℕ) :
    x.roundingError bits = halfUpError x.toRat bits := by
  rw [roundingError, halfUpError, scaled_eq_halfUp]
  rcases le_total 0 ((halfUp x.toRat bits : ℚ) / 2 ^ bits - x.toRat) with h | h
  · rw [Rat.abs_of_nonneg h, abs_of_nonneg h]
  · rw [Rat.abs_of_nonpos h, abs_of_nonpos h]

end Binary64

/-! ## The rounding interval -/

/-- A number is rounded to the coefficient whose interval it lies in, a tie going up. -/
theorem halfUp_eq_iff {q : ℚ} {bits : ℕ} {k : ℤ} :
    halfUp q bits = k ↔ (k : ℚ) - 1 / 2 ≤ q * 2 ^ bits ∧ q * 2 ^ bits < k + 1 / 2 := by
  rw [halfUp, Int.floor_eq_iff]
  constructor <;> rintro ⟨h₁, h₂⟩ <;> constructor <;> linarith

theorem le_halfUp_iff {q : ℚ} {bits : ℕ} {k : ℤ} :
    k ≤ halfUp q bits ↔ (k : ℚ) - 1 / 2 ≤ q * 2 ^ bits := by
  rw [halfUp, Int.le_floor]
  constructor <;> intro h <;> linarith

theorem halfUp_le_iff {q : ℚ} {bits : ℕ} {k : ℤ} :
    halfUp q bits ≤ k ↔ q * 2 ^ bits < k + 1 / 2 := by
  rw [← not_lt, Int.lt_iff_add_one_le, le_halfUp_iff]
  push_cast
  constructor <;> intro h <;> linarith

/-- An integer that bounds the scaled number bounds its rounding too. -/
theorem abs_halfUp_le {q : ℚ} {bits : ℕ} {k : ℤ} (h : |q * 2 ^ bits| ≤ k) : |halfUp q bits| ≤ k := by
  obtain ⟨hbelow, habove⟩ := abs_le.mp h
  rw [abs_le, le_halfUp_iff, halfUp_le_iff]
  push_cast
  constructor <;> linarith

/-- Rounding keeps the order of numbers. -/
theorem halfUp_mono {q r : ℚ} (h : q ≤ r) (bits : ℕ) : halfUp q bits ≤ halfUp r bits := by
  have hstep : (0 : ℚ) < 2 ^ bits := by positivity
  have hscaled := mul_le_mul_of_nonneg_right h hstep.le
  exact Int.floor_le_floor (by linarith)

/-- An integer is on every grid, so that rounding does not pass it. -/
theorem le_halfUp_div {q : ℚ} {k : ℤ} (h : k ≤ q) (bits : ℕ) :
    (k : ℚ) ≤ halfUp q bits / 2 ^ bits := by
  have hstep : (0 : ℚ) < 2 ^ bits := by positivity
  rw [le_div_iff₀ hstep]
  have hgrid : k * 2 ^ bits ≤ halfUp q bits := by
    rw [le_halfUp_iff]
    push_cast
    have := mul_le_mul_of_nonneg_right h hstep.le
    linarith
  exact_mod_cast hgrid

theorem halfUp_div_le {q : ℚ} {k : ℤ} (h : q ≤ k) (bits : ℕ) :
    (halfUp q bits : ℚ) / 2 ^ bits ≤ k := by
  have hstep : (0 : ℚ) < 2 ^ bits := by positivity
  rw [div_le_iff₀ hstep]
  have hgrid : halfUp q bits ≤ k * 2 ^ bits := by
    rw [halfUp_le_iff]
    push_cast
    have := mul_le_mul_of_nonneg_right h hstep.le
    linarith
  exact_mod_cast hgrid

/-- A multiple of the step is its own rounding. -/
theorem halfUp_of_eq {q : ℚ} {bits : ℕ} {k : ℤ} (h : q * 2 ^ bits = k) : halfUp q bits = k := by
  rw [halfUp_eq_iff, h]
  constructor <;> linarith

/-! ## The rounding error -/

/-- The error in units of the step. -/
theorem halfUpError_mul (q : ℚ) (bits : ℕ) :
    halfUpError q bits * 2 ^ bits = |(halfUp q bits : ℚ) - q * 2 ^ bits| := by
  have hstep : (0 : ℚ) < 2 ^ bits := by positivity
  rw [halfUpError, ← abs_of_pos hstep, ← abs_mul, abs_of_pos hstep, sub_mul,
    div_mul_cancel₀ _ hstep.ne']

/-- Rounding is off by half a step at most. -/
theorem halfUpError_le (q : ℚ) (bits : ℕ) : halfUpError q bits ≤ 1 / 2 ^ (bits + 1) := by
  have hstep : (0 : ℚ) < 2 ^ bits := by positivity
  obtain ⟨hlow, hhigh⟩ := halfUp_eq_iff.mp (rfl : halfUp q bits = halfUp q bits)
  have hunits : halfUpError q bits * 2 ^ bits ≤ 1 / 2 := by
    rw [halfUpError_mul, abs_le]
    constructor <;> linarith
  rw [le_div_iff₀ (by positivity), pow_succ, ← mul_assoc]
  linarith

/-- No multiple of the step is nearer to a number than its rounding. -/
theorem halfUp_nearest (q : ℚ) (bits : ℕ) (k : ℤ) :
    halfUpError q bits ≤ |(k : ℚ) / 2 ^ bits - q| := by
  have hstep : (0 : ℚ) < 2 ^ bits := by positivity
  have hunits : |(k : ℚ) / 2 ^ bits - q| * 2 ^ bits = |(k : ℚ) - q * 2 ^ bits| := by
    rw [← abs_of_pos hstep, ← abs_mul, abs_of_pos hstep, sub_mul, div_mul_cancel₀ _ hstep.ne']
  -- both distances in units of the step
  rw [← mul_le_mul_iff_left₀ hstep, halfUpError_mul, hunits]
  obtain ⟨hlow, hhigh⟩ := halfUp_eq_iff.mp (rfl : halfUp q bits = halfUp q bits)
  by_cases hsame : k = halfUp q bits
  · rw [hsame]
  · -- another coefficient is a whole unit away from the one taken
    have hunit : (1 : ℚ) ≤ |(k : ℚ) - halfUp q bits| := by
      have : (1 : ℤ) ≤ |k - halfUp q bits| := Int.one_le_abs (sub_ne_zero.mpr hsame)
      exact_mod_cast this
    have hnear : |(halfUp q bits : ℚ) - q * 2 ^ bits| ≤ 1 / 2 := by
      rw [abs_le]
      constructor <;> linarith
    have htriangle := abs_sub_le (k : ℚ) (q * 2 ^ bits) (halfUp q bits)
    rw [abs_sub_comm (q * 2 ^ bits) (halfUp q bits : ℚ)] at htriangle
    linarith

/-- One more fractional bit never makes the rounding worse. -/
theorem halfUpError_succ_le (q : ℚ) (bits : ℕ) :
    halfUpError q (bits + 1) ≤ halfUpError q bits := by
  have hgrid : (halfUp q bits : ℚ) / 2 ^ bits = (2 * halfUp q bits : ℤ) / 2 ^ (bits + 1) := by
    rw [pow_succ]
    push_cast
    field_simp
  calc halfUpError q (bits + 1)
      ≤ |((2 * halfUp q bits : ℤ) : ℚ) / 2 ^ (bits + 1) - q| := halfUp_nearest q (bits + 1) _
    _ = halfUpError q bits := by rw [← hgrid, halfUpError]

theorem halfUpError_antitone (q : ℚ) : Antitone (halfUpError q) :=
  antitone_nat_of_succ_le (halfUpError_succ_le q)

end BinaryPoint
