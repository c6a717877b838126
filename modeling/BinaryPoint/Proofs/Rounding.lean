import BinaryPoint.Proofs.Arithmetic
import BinaryPoint.Proofs.Binder.RoundTrips

/-! # One rounding for all

A number comes to rounding in many forms: as a scaled integer and a shift of either sign, as a
double, which may be told by any ratio with a power of two below, as a value of another format, or
as a product of two values. What it is rounded to depends on the number alone, so that a tie goes
the same way wherever it turns up.

* `shiftRound_mul_two_pow`, `shiftRound_add_mul`: another form of a ratio, and another number on
  the same grid;
* `Binary64.scaled_eq_shiftRound`: a double rounded through any of its ratios;
* `rounds_the_number`: all of this, and the same result of inference, binding, reformatting and
  multiplication for one number.
-/

namespace BinaryPoint

/-! ## Shifts -/

/-- A ratio may be expanded by a power of two, also where that makes the shift positive. -/
theorem shiftRound_mul_two_pow (raw shift : ℤ) (k : ℕ) :
    shiftRound (raw * 2 ^ k) (shift + k) = shiftRound raw shift := by
  rw [shiftRound_eq_floor, shiftRound_eq_floor]
  congr 2
  have hpow : (2 : ℚ) ^ k * 2 ^ (-(shift + k)) = 2 ^ (-shift) := by
    rw [← zpow_natCast, ← zpow_add₀ two_ne_zero]
    congr 1
    ring
  push_cast
  rw [mul_assoc, hpow]

/-- Whole units pass through a shift to the right. -/
theorem shiftRound_add_mul (raw n : ℤ) (shift : ℕ) :
    shiftRound (raw + n * 2 ^ shift) shift = shiftRound raw shift + n := by
  have hunit : (2 : ℚ) ^ shift * 2 ^ (-(shift : ℤ)) = 1 := by
    rw [zpow_neg, zpow_natCast]
    exact mul_inv_cancel₀ (by positivity)
  have hsplit : ((raw + n * 2 ^ shift : ℤ) : ℚ) * 2 ^ (-(shift : ℤ)) + 1 / 2 =
      (raw * 2 ^ (-(shift : ℤ)) + 1 / 2) + n := by
    push_cast
    rw [add_mul, mul_assoc, hunit]
    ring
  rw [shiftRound_eq_floor, shiftRound_eq_floor, hsplit, Int.floor_add_intCast]

/-- A ratio that is scaled before it is shifted comes to the difference of both. -/
theorem shiftRound_scaled (p : ℤ) (q bits : ℕ) :
    shiftRound (p * 2 ^ bits) q = shiftRound p ((q : ℤ) - bits) := by
  have h := shiftRound_mul_two_pow p ((q : ℤ) - bits) bits
  rwa [sub_add_cancel] at h

/-! ## Doubles -/

/-- A double is rounded through any ratio that it is equal to, in lowest terms or not. -/
theorem Binary64.scaled_eq_shiftRound {x : Binary64} {p : ℤ} {q : ℕ}
    (h : x.toRat = p / 2 ^ q) (bits : ℕ) : x.scaled bits = shiftRound p ((q : ℤ) - bits) := by
  rw [scaled_eq_halfUp, h, halfUp, shiftRound_eq_floor, neg_sub, zpow_sub₀ two_ne_zero,
    zpow_natCast, zpow_natCast]
  congr 2
  ring

/-! ## The users of rounding -/

/-- **Rounding depends on the number only.** A shift of either sign rounds the exact quotient half
up; so a ratio may be expanded across the point where the shift changes its sign, and whole units
pass through. A finite double is rounded through every ratio that it is equal to. And whether a
number comes as a double, as a value of another format or as a product, the value that it leads to
in a type, or the refusal, is the one of the same scaled integer, which is also the one that
inference measures the error of. -/
theorem rounds_the_number :
    (∀ raw shift : ℤ, shiftRound raw shift = ⌊(raw : ℚ) / 2 ^ shift + 1 / 2⌋) ∧
    (∀ (raw shift : ℤ) (k : ℕ),
      shiftRound (raw * 2 ^ k) (shift + k) = shiftRound raw shift) ∧
    (∀ (raw n : ℤ) (shift : ℕ),
      shiftRound (raw + n * 2 ^ shift) shift = shiftRound raw shift + n) ∧
    (∀ (x : Binary64) (p : ℤ) (q bits : ℕ), x.isFinite → x.toRat = p / 2 ^ q →
      x.scaled bits = shiftRound p ((q : ℤ) - bits) ∧
        x.scaled bits = shiftRound (p * 2 ^ bits) q) ∧
    ∀ (t : ValueType) (number : ℚ),
      let coefficient := ⌊number * 2 ^ t.format.fractionalBits + 1 / 2⌋
      let result := Fixed.ofRaw t coefficient
      (∀ x : Binary64, x.isFinite → x.toRat = number →
        x.roundingError t.format.fractionalBits =
          |(coefficient : ℚ) / 2 ^ t.format.fractionalBits - number|) ∧
      (∀ (b : Binder) (d : Descriptor) (cache : Cache ValueType),
        ((b.typeFor d).runOn cache).1 = .ok t →
          (∀ x : Binary64, x.isFinite → x.toRat = number →
            ((b.bind d x).runOn cache).1 = result) ∧
          ∀ v : Fixed, v.toRat = number → ((b.reformat v d).runOn cache).1 = result) ∧
      ∀ v w : Fixed, v.type = t → w.format = t.format → v.toRat * w.toRat = number →
        v.mul w = result := by
  refine ⟨fun raw shift => ?_, shiftRound_mul_two_pow, shiftRound_add_mul, ?_, ?_⟩
  · rw [shiftRound_eq_floor, zpow_neg, ← div_eq_mul_inv]
  · intro x p q bits _ hratio
    rw [shiftRound_scaled]
    exact ⟨Binary64.scaled_eq_shiftRound hratio bits, Binary64.scaled_eq_shiftRound hratio bits⟩
  · intro t number coefficient result
    refine ⟨?_, fun b d cache ht => ⟨?_, ?_⟩, ?_⟩
    · -- inference measures against the nearest multiple
      rintro x - rfl
      exact x.roundingError_eq_halfUpError t.format.fractionalBits
    · -- a double is bound by rounding its ratio
      rintro x hfinite rfl
      rw [Binder.runOn_bind_of_typeFor ht, Binder.roundTo_of_isFinite hfinite]
      rfl
    · -- a value is moved by a shift
      rintro v rfl
      exact Binder.runOn_reformat_of_typeFor ht v
    · -- and a product is scaled back by one
      rintro v w rfl hw rfl
      rw [Fixed.mul_eq hw, Fixed.product_eq_halfUp hw]
      rfl

/-- Three eighths below zero are a tie between quarters and go up to one quarter below zero: as a
double told by the ratio of six to sixteen, as a value of three fractional bits, and as a product
of quarters. -/
theorem rounds_the_number_eighths :
    let quarters : ValueType := ⟨⟨true, 0, 2⟩, 0, by decide⟩
    let x := Binary64.ofRatio true 3 8
    let b : Binder := ⟨.int 1024, 0⟩
    let v : Fixed := ⟨⟨⟨true, 0, 3⟩, 0, by decide⟩, -3, by decide⟩
    let result := Fixed.ofRaw quarters (-1)
    x.scaled 2 = shiftRound (-6) (4 - 2) ∧ x.scaled 2 = shiftRound (-6 * 2 ^ 2) 4 ∧
      x.roundingError 2 = 1 / 8 ∧ ((b.bind quarters.format x).runOn {}).1 = result ∧
      ((b.reformat v quarters.format).runOn {}).1 = result ∧
      Fixed.mul ⟨quarters, -3, by decide⟩ ⟨quarters, 2, by decide⟩ = result := by
  intro quarters x b v result
  have hx : x.toRat = -3 / 8 := by decide +kernel
  have ht : ((b.typeFor quarters.format).runOn {}).1 = .ok quarters :=
    eq_ok_of_toOption (by decide +kernel)
  obtain ⟨-, -, -, hratio, husers⟩ := rounds_the_number
  obtain ⟨hdirect, hscaled⟩ := hratio x (-6) 4 2 rfl (by rw [hx]; norm_num)
  obtain ⟨herror, hbinder, hproduct⟩ := husers quarters (-3 / 8)
  have hcoefficient : ⌊(-3 / 8 : ℚ) * 2 ^ quarters.format.fractionalBits + 1 / 2⌋ = -1 := by
    decide +kernel
  simp only [hcoefficient] at herror hbinder hproduct
  obtain ⟨hbind, hreformat⟩ := hbinder b quarters.format {} ht
  refine ⟨hdirect, hscaled, ?_, hbind x rfl hx, hreformat v (by decide +kernel),
    hproduct _ _ rfl rfl (by decide +kernel)⟩
  rw [herror x rfl hx]
  decide +kernel

end BinaryPoint
