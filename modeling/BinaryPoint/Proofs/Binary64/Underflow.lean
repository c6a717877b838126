import BinaryPoint.Proofs.Binary64.Nearest

/-! # Numbers next to zero

Below the least double there is zero only. A quotient of up to half the least double is
rounded to it, the tie going to the even significand (`ofRatio_eq_zero`). So the powers of
two with negative exponents are exact down to the least double and zero from there on, and
comparing a positive double with such a power comes to the same as comparing it with the
exact number (`powerOfTwo_neg_lt_iff`).
-/

namespace BinaryPoint

theorem nearestEven_eq_zero {num den : ℕ} (hden : 0 < den) (h : 2 * num ≤ den) :
    nearestEven num den = 0 := by
  have hquotient : num / den = 0 := Nat.div_eq_of_lt (by omega)
  have hremainder : num % den = num := Nat.mod_eq_of_lt (by omega)
  simp only [nearestEven, hquotient, hremainder]
  split
  · rfl
  · rw [if_neg (by omega)]

namespace Binary64

/-- No representable number lies between zero and the least double. -/
theorem Representable.le_of_pos {r : ℚ} (hr : Representable r) (hpos : 0 < r) :
    2 ^ (-1074 : ℤ) ≤ r := by
  obtain ⟨n, e, rfl, -, hlow, -⟩ := hr
  have hunit : (0 : ℚ) < 2 ^ e := by positivity
  have hn : (1 : ℚ) ≤ n := by
    have : 0 < n := by exact_mod_cast pos_of_mul_pos_left hpos hunit.le
    exact_mod_cast this
  calc (2 : ℚ) ^ (-1074 : ℤ) ≤ 2 ^ e := zpow_le_zpow_right₀ one_le_two hlow
    _ ≤ n * 2 ^ e := le_mul_of_one_le_left hunit.le hn

/-- A quotient that is not above half its last place is rounded to zero, the tie included. -/
theorem significand_eq_zero {num den : ℕ} (hden : 0 < den)
    (h : (num : ℚ) / den ≤ 1 / 2 * 2 ^ lastPlace num den) : significand num den = 0 := by
  have hhalf := (scaled_le_iff hden).mpr h
  have hdouble : (2 : ℚ) * (num * 2 ^ (-lastPlace num den).toNat : ℕ) ≤
      (den * 2 ^ (lastPlace num den).toNat : ℕ) := by linarith only [hhalf]
  exact nearestEven_eq_zero (by positivity) (by exact_mod_cast hdouble)

/-- A quotient that is not above half the least double is rounded to zero. -/
theorem ofRatio_eq_zero {negative : Bool} {num den : ℕ} (hden : 0 < den)
    (h : (num : ℚ) / den ≤ 2 ^ (-1075 : ℤ)) : ofRatio negative num den = zero negative := by
  rcases eq_or_ne num 0 with rfl | hnum
  · rw [ofRatio, if_pos rfl]
  obtain ⟨-, hlast, hnormal⟩ := lastPlace_spec hnum hden
  have hhalf : (2 : ℚ) ^ (-1075 : ℤ) = 1 / 2 * 2 ^ (-1074 : ℤ) := by
    rw [show (-1075 : ℤ) = -1 + -1074 by norm_num, zpow_add₀ two_ne_zero, zpow_neg_one, one_div]
  have hunit : (0 : ℚ) < 2 ^ (-1074 : ℤ) := by positivity
  rw [hhalf] at h
  -- A place above the least one is that of a full significand, and the quotient is too small.
  have hplace : lastPlace num den = -1074 := by
    refine hnormal.resolve_right fun hfull => ?_
    have hleast : (2 : ℚ) ^ (-1074 : ℤ) ≤ 2 ^ lastPlace num den :=
      zpow_le_zpow_right₀ one_le_two hlast
    linarith only [hfull, h, hleast, hunit]
  have hsig : significand num den = 0 := significand_eq_zero hden (by rwa [hplace])
  rw [ofRatio_of_ne_zero negative hnum, hsig, hplace, if_neg (by decide)]
  rfl

/-! ## Powers of two -/

theorem one_div_two_pow (n : ℕ) : (1 : ℚ) / 2 ^ n = 2 ^ (-n : ℤ) := by
  rw [zpow_neg, zpow_natCast, one_div]

/-- A power of two with a negative exponent is the double nearest to it, if it is not far below
the least double. -/
theorem powerOfTwo_neg_eq_nearest {n : ℕ} (hn : n ≤ 1100) :
    powerOfTwo (-n) = nearest 1 (2 ^ n) := by
  rw [powerOfTwo, if_neg (by omega), if_neg (by omega), ofScaled, nearest]
  simp

/-- From half of the least double on it is zero. -/
theorem powerOfTwo_neg_eq_zero {n : ℕ} (hn : 1074 < n) : powerOfTwo (-n) = zero false := by
  rcases le_or_gt n 1100 with hle | hgt
  · have hsmall : (2 : ℚ) ^ (-n : ℤ) ≤ 2 ^ (-1075 : ℤ) :=
      zpow_le_zpow_right₀ one_le_two (by omega)
    rw [powerOfTwo_neg_eq_nearest hle, nearest]
    apply ofRatio_eq_zero (by positivity)
    rwa [Int.natAbs_one, Nat.cast_one, Nat.cast_pow, Nat.cast_ofNat, one_div_two_pow]
  · rw [powerOfTwo, if_pos (by omega)]

/-- Down to the least double it is exact. -/
theorem toRat_powerOfTwo_neg {n : ℕ} (hn : n ≤ 1074) :
    (powerOfTwo (-n)).isFinite ∧ (powerOfTwo (-n)).toRat = 1 / 2 ^ n := by
  have hvalue : ((1 : ℤ) : ℚ) / (2 ^ n : ℕ) = 1 / 2 ^ n := by
    rw [Int.cast_one, Nat.cast_pow, Nat.cast_ofNat]
  have hrepresentable : Representable (((1 : ℤ) : ℚ) / (2 ^ n : ℕ)) := by
    rw [hvalue, one_div_two_pow]
    exact representable_two_zpow (by omega) (by omega)
  rw [powerOfTwo_neg_eq_nearest (by omega), ← hvalue]
  exact toRat_nearest (by positivity) hrepresentable

theorem isFinite_powerOfTwo_neg (n : ℕ) : (powerOfTwo (-n)).isFinite := by
  rcases le_or_gt n 1074 with hn | hn
  · exact (toRat_powerOfTwo_neg hn).1
  · rw [powerOfTwo_neg_eq_zero hn]
    rfl

/-- A positive double is compared with the power as with the exact number: one that underflows
is below every positive double, and so is the zero that it is rounded to. -/
theorem powerOfTwo_neg_lt_iff {x : Binary64} (hx : x.isFinite) (hpos : 0 < x.toRat) (n : ℕ) :
    (powerOfTwo (-n)).lt x ↔ 1 / 2 ^ n < x.toRat := by
  rw [lt_iff_toRat (isFinite_powerOfTwo_neg n) hx]
  rcases le_or_gt n 1074 with hn | hn
  · rw [(toRat_powerOfTwo_neg hn).2]
  · rw [powerOfTwo_neg_eq_zero hn, toRat_zero]
    refine iff_of_true hpos ?_
    calc (1 : ℚ) / 2 ^ n = 2 ^ (-n : ℤ) := one_div_two_pow n
      _ < 2 ^ (-1074 : ℤ) := zpow_lt_zpow_right₀ one_lt_two (by omega)
      _ ≤ x.toRat := (representable_toRat x).le_of_pos hpos

end Binary64

end BinaryPoint
