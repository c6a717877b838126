import BinaryPoint.Proofs.Binary64.Logarithm
import BinaryPoint.Proofs.Binary64.Monotone

/-! # The digits of a logarithm

The digits come from squaring, with bounds on the number that is squared. A digit is taken only if
both bounds agree on it, so the digits are those of the logarithm itself, at whichever precision
they were found (`logFloor_spec`). Hence they keep the order of numbers, and so does the logarithm
that is rounded from them.

* `log2_mono`: a greater double has no smaller logarithm;
* `log2_pos`, `add_half_le_log2`: two bounds below that rounding does not blur.
-/

namespace BinaryPoint.Binary64

/-! ## Exact digits -/

/-- `k` is the integer part of `scale` times the logarithm of `z`. -/
def IsLogFloor (z : ℚ) (scale k : ℕ) : Prop := 2 ^ k ≤ z ^ scale ∧ z ^ scale < 2 ^ (k + 1)

theorem IsLogFloor.le {z z' : ℚ} {scale k k' : ℕ} (h : IsLogFloor z scale k)
    (h' : IsLogFloor z' scale k') (hz : 0 ≤ z) (hle : z ≤ z') : k ≤ k' := by
  have hpow : z ^ scale ≤ z' ^ scale := by gcongr
  have hlt : (2 : ℚ) ^ k < 2 ^ (k' + 1) := h.1.trans_lt (hpow.trans_lt h'.2)
  exact Nat.lt_succ_iff.mp ((pow_lt_pow_iff_right₀ one_lt_two).mp hlt)

/-- The number is between the bounds. -/
def Enclosure.Contains (y : Enclosure) (precision : ℕ) (z : ℚ) : Prop :=
  (y.lo : ℚ) ≤ z * 2 ^ precision ∧ z * 2 ^ precision ≤ y.hi

variable {precision count acc n m : ℕ} {bit : Bool} {y y' : Enclosure} {z : ℚ}

/-- The bounds of the square, in the units of the bounds themselves. -/
theorem Enclosure.Contains.square (h : y.Contains precision z) (hz : 0 ≤ z) :
    ((y.lo * y.lo / 2 ^ precision : ℕ) : ℚ) ≤ z ^ 2 * 2 ^ precision ∧
      z ^ 2 * 2 ^ precision ≤ ((y.hi * y.hi + (2 ^ precision - 1)) / 2 ^ precision : ℕ) := by
  obtain ⟨hlo, hhi⟩ := h
  have hunit : (0 : ℚ) < 2 ^ precision := by positivity
  have hsquare : z ^ 2 * 2 ^ precision * 2 ^ precision = (z * 2 ^ precision) ^ 2 := by ring
  constructor
  · -- the lower bound is rounded down
    have hdiv : y.lo * y.lo / 2 ^ precision * 2 ^ precision ≤ y.lo * y.lo := Nat.div_mul_le_self _ _
    rw [← mul_le_mul_iff_left₀ hunit, hsquare]
    calc ((y.lo * y.lo / 2 ^ precision : ℕ) : ℚ) * 2 ^ precision ≤ (y.lo : ℚ) ^ 2 := by
          rw [sq]
          exact_mod_cast hdiv
      _ ≤ (z * 2 ^ precision) ^ 2 := by gcongr
  · -- the upper bound is rounded up
    have hdiv : y.hi * y.hi ≤
        (y.hi * y.hi + (2 ^ precision - 1)) / 2 ^ precision * 2 ^ precision := by
      have hpos : 0 < 2 ^ precision := Nat.two_pow_pos precision
      have hsplit := Nat.div_add_mod' (y.hi * y.hi + (2 ^ precision - 1)) (2 ^ precision)
      have hrest := Nat.mod_lt (y.hi * y.hi + (2 ^ precision - 1)) hpos
      omega
    rw [← mul_le_mul_iff_left₀ hunit, hsquare]
    calc (z * 2 ^ precision) ^ 2 ≤ (y.hi : ℚ) ^ 2 := by gcongr
      _ ≤ (((y.hi * y.hi + (2 ^ precision - 1)) / 2 ^ precision : ℕ) : ℚ) * 2 ^ precision := by
          rw [sq]
          exact_mod_cast hdiv

/-- One step squares the number; the digit is that of two in the square. -/
theorem Enclosure.step_spec (hstep : y.step precision = some (bit, y'))
    (h : y.Contains precision z) (hone : 1 ≤ z) (htwo : z < 2) :
    ∃ z', z ^ 2 = 2 ^ bit.toNat * z' ∧ y'.Contains precision z' ∧ 1 ≤ z' ∧ z' < 2 := by
  have hunit : (0 : ℚ) < 2 ^ precision := by positivity
  obtain ⟨hlo, hhi⟩ := h.square (zero_le_one.trans hone)
  have hfour : z ^ 2 < 4 := by nlinarith
  have hsq : 1 ≤ z ^ 2 := one_le_pow₀ hone
  simp only [Enclosure.step] at hstep
  generalize y.lo * y.lo / 2 ^ precision = lo at *
  generalize (y.hi * y.hi + (2 ^ precision - 1)) / 2 ^ precision = hi at *
  split at hstep
  · next hbit =>
    -- the lower bound of the square reaches two: the digit is one, and both bounds are halved
    cases hstep
    have hbitQ : (2 : ℚ) * 2 ^ precision ≤ lo := by exact_mod_cast hbit
    have hreach : 2 ≤ z ^ 2 := by
      rw [← mul_le_mul_iff_left₀ hunit]
      exact hbitQ.trans hlo
    have hlower : ((lo / 2 : ℕ) : ℚ) * 2 ≤ lo := by
      exact_mod_cast Nat.div_mul_le_self lo 2
    have hupper : (hi : ℚ) ≤ ((hi + 1) / 2 : ℕ) * (2 : ℚ) := by
      have : hi ≤ (hi + 1) / 2 * 2 := by omega
      exact_mod_cast this
    have hhalf : z ^ 2 / 2 * 2 ^ precision = z ^ 2 * 2 ^ precision / 2 := div_mul_eq_mul_div _ _ _
    refine ⟨z ^ 2 / 2, by rw [Bool.toNat_true, pow_one, mul_div_cancel₀ _ two_ne_zero], ⟨?_, ?_⟩,
      by linarith, by linarith⟩
    · rw [hhalf]
      linarith
    · rw [hhalf]
      linarith
  · split at hstep
    · next hbit =>
      -- the upper bound stays below two: the digit is zero
      cases hstep
      have hbitQ : (hi : ℚ) < 2 * 2 ^ precision := by exact_mod_cast hbit
      have hbelow : z ^ 2 < 2 := by
        rw [← mul_lt_mul_iff_left₀ hunit]
        exact hhi.trans_lt hbitQ
      exact ⟨z ^ 2, by simp, ⟨hlo, hhi⟩, hsq, hbelow⟩
    · cases hstep

/-- The digits that follow are those of the logarithm. The number changes with every step, and the
power of it by the digit only. -/
theorem logDigitsFrom_spec (hdigits : logDigitsFrom precision count acc y = some n)
    (h : y.Contains precision z) (hone : 1 ≤ z) (htwo : z < 2) :
    ∃ k, n = acc * 2 ^ count + k ∧ IsLogFloor z (2 ^ count) k := by
  induction count generalizing acc y z with
  | zero =>
    cases hdigits
    exact ⟨0, by simp, by simpa [IsLogFloor] using ⟨hone, htwo⟩⟩
  | succ count ih =>
    rw [logDigitsFrom] at hdigits
    split at hdigits
    · next bit y' hstep =>
      obtain ⟨z', hsq, hcontains, hone', htwo'⟩ := Enclosure.step_spec hstep h hone htwo
      -- the later digits are those of the logarithm of the number that is left
      obtain ⟨k, hn, hlow, hhigh⟩ := ih hdigits hcontains hone' htwo'
      have hpow : z ^ 2 ^ (count + 1) = 2 ^ (bit.toNat * 2 ^ count) * z' ^ 2 ^ count := by
        rw [pow_succ', pow_mul, hsq, mul_pow, ← pow_mul]
      refine ⟨bit.toNat * 2 ^ count + k, ?_, ?_, ?_⟩
      · rw [hn, pow_succ]
        ring
      · rw [hpow, pow_add]
        gcongr
      · rw [hpow, add_assoc, pow_add]
        gcongr
    · -- an enclosure that is too wide for the digit ends the computation
      cases hdigits

/-- A significand as a number from one to two. -/
theorem one_le_significand (hlow : 2 ^ 52 ≤ m) (hhigh : m < 2 ^ Binary64.precision) :
    1 ≤ (m : ℚ) / 2 ^ 52 ∧ (m : ℚ) / 2 ^ 52 < 2 := by
  rw [le_div_iff₀ (by positivity), div_lt_iff₀ (by positivity)]
  have hlowQ : (2 : ℚ) ^ 52 ≤ m := by exact_mod_cast hlow
  have hhighQ : (m : ℚ) < 2 ^ 53 := by exact_mod_cast hhigh
  exact ⟨by linarith, by linarith⟩

theorem logFloorAt?_spec (hprecision : 52 ≤ precision) (hlow : 2 ^ 52 ≤ m)
    (hhigh : m < 2 ^ Binary64.precision) (h : logFloorAt? precision m = some n) :
    IsLogFloor (m / 2 ^ 52) (2 ^ logDigits) n := by
  obtain ⟨hone, htwo⟩ := one_le_significand hlow hhigh
  obtain ⟨j, rfl⟩ := Nat.exists_eq_add_of_le hprecision
  have hexact : (m : ℚ) / 2 ^ 52 * 2 ^ (52 + j) = ((m * 2 ^ (52 + j - 52) : ℕ) : ℚ) := by
    rw [Nat.add_sub_cancel_left, pow_add]
    push_cast
    field_simp
  obtain ⟨k, rfl, hk⟩ := logDigitsFrom_spec h ⟨hexact.ge, hexact.le⟩ hone htwo
  rwa [zero_mul, zero_add]

theorem logFloorBy_spec (scale : ℕ) (hlow : 2 ^ 52 ≤ m) :
    IsLogFloor (m / 2 ^ 52) scale (logFloorBy scale m) := by
  have hpow : 2 ^ (52 * scale) ≤ m ^ scale := by
    rw [pow_mul]
    exact Nat.pow_le_pow_left hlow scale
  have hne : m ^ scale ≠ 0 := (Nat.two_pow_pos _).trans_le hpow |>.ne'
  have hbits : 52 * scale ≤ (m ^ scale).log2 := (Nat.le_log2 hne).mpr hpow
  -- the floor of the logarithm is the bit length of the power
  have hfloor : (m ^ scale).log2 = logFloorBy scale m + 52 * scale := by
    rw [logFloorBy]
    omega
  have hunit : (0 : ℚ) < (2 ^ 52) ^ scale := by positivity
  have hbelow : (2 : ℚ) ^ (m ^ scale).log2 ≤ m ^ scale := by exact_mod_cast Nat.log2_self_le hne
  have habove : (m : ℚ) ^ scale < 2 ^ ((m ^ scale).log2 + 1) := by
    exact_mod_cast (Nat.lt_log2_self : m ^ scale < _)
  rw [hfloor] at hbelow habove
  -- dividing by the unit of the mantissa takes the same number of bits from both bounds
  rw [IsLogFloor, div_pow, le_div_iff₀ hunit, div_lt_iff₀ hunit, ← pow_mul, ← pow_add, ← pow_add,
    add_right_comm]
  exact ⟨hbelow, habove⟩

/-- The digits of a logarithm are exact, wherever they come from. -/
theorem logFloor_spec (hlow : 2 ^ 52 ≤ m) (hhigh : m < 2 ^ Binary64.precision) :
    IsLogFloor (m / 2 ^ 52) (2 ^ logDigits) (logFloor m) := by
  rw [logFloor]
  exact getD_orElse (P := IsLogFloor (m / 2 ^ 52) (2 ^ logDigits))
    (fun n => logFloorAt?_spec (by decide) hlow hhigh)
    (fun n => logFloorAt?_spec (by decide) hlow hhigh) (logFloorBy_spec _ hlow)

/-- From one and a half on the first digit is a one. -/
theorem IsLogFloor.half {digits k : ℕ} (h : IsLogFloor z (2 ^ (digits + 1)) k) (hz : 3 / 2 ≤ z) :
    2 ^ digits ≤ k := by
  have hsq : 2 ≤ z ^ 2 := by nlinarith
  have hpow : (2 : ℚ) ^ 2 ^ digits ≤ z ^ 2 ^ (digits + 1) := by
    rw [pow_succ' 2 digits, pow_mul z]
    gcongr
  have hlt : (2 : ℚ) ^ 2 ^ digits < 2 ^ (k + 1) := hpow.trans_lt h.2
  exact Nat.lt_succ_iff.mp ((pow_lt_pow_iff_right₀ one_lt_two).mp hlt)

/-! ## The order of logarithms -/

theorem logRatio_mono {m' : ℕ} (hlow : 2 ^ 52 ≤ m) (hle : m ≤ m')
    (hhigh : m' < 2 ^ Binary64.precision) (e : ℤ) : logRatio m e ≤ logRatio m' e := by
  by_cases hone : m = 2 ^ (Binary64.precision - 1)
  · rw [logRatio, if_pos hone]
    exact (logRatio_bounds hhigh e).1
  · have hone' : m' ≠ 2 ^ (Binary64.precision - 1) := by
      simp only [Binary64.precision, Nat.reduceSub] at hone ⊢
      omega
    have hdigits : logFloor m ≤ logFloor m' :=
      (logFloor_spec hlow (hle.trans_lt hhigh)).le (logFloor_spec (hlow.trans hle) hhigh)
        (by positivity) (by gcongr)
    rw [logRatio, logRatio, if_neg hone, if_neg hone']
    gcongr

variable {x x' : Binary64}

/-- Logarithms keep the order of doubles. -/
theorem log2_mono (hx : x.isFinite) (hx' : x'.isFinite) (hpos : 0 < x.toRat)
    (hle : x.toRat ≤ x'.toRat) : x.log2.toRat ≤ x'.log2.toRat := by
  have hpos' := hpos.trans_le hle
  have hfinite := isFinite_log2 hx hpos
  have hfinite' := isFinite_log2 hx' hpos'
  obtain ⟨m, e, hlow, hhigh, hvalue, hlog, -, -⟩ := log2_eq_logNormal hx hpos
  obtain ⟨m', e', hlow', hhigh', hvalue', hlog', -, -⟩ := log2_eq_logNormal hx' hpos'
  obtain ⟨n, d, hd, hnearest, hratio⟩ := logNormal_eq_nearest m e
  obtain ⟨n', d', hd', hnearest', hratio'⟩ := logNormal_eq_nearest m' e'
  have hratios : logRatio m e ≤ logRatio m' e' := by
    rw [hvalue, hvalue'] at hle
    rcases lt_trichotomy e e' with hlt | rfl | hgt
    · -- the ranges of two exponents do not overlap
      calc logRatio m e ≤ ((e + 52 : ℤ) : ℚ) + 1 := (logRatio_bounds hhigh e).2
        _ ≤ ((e' + 52 : ℤ) : ℚ) := by exact_mod_cast (by omega : e + 52 + 1 ≤ e' + 52)
        _ ≤ logRatio m' e' := (logRatio_bounds hhigh' e').1
    · -- with one exponent the mantissas are ordered
      have hm : (m : ℚ) ≤ m' := le_of_mul_le_mul_right hle (by positivity)
      exact logRatio_mono hlow (by exact_mod_cast hm) hhigh' e
    · -- with a greater exponent the first number would be the greater one
      have hless : (m' : ℚ) * 2 ^ e' < 2 ^ 52 * 2 ^ e :=
        lt_of_exponent_lt (n := m') (by exact_mod_cast hhigh') hgt
      have hmore : (2 : ℚ) ^ 52 * 2 ^ e ≤ m * 2 ^ e := by
        gcongr
        exact_mod_cast hlow
      linarith
  rw [hlog, hnearest] at hfinite ⊢
  rw [hlog', hnearest'] at hfinite' ⊢
  exact toRat_nearest_mono hd hd' hfinite hfinite' (by rwa [hratio, hratio'])

/-- A representable number below the one that is rounded is not above the logarithm. -/
theorem le_log2 (hx : x.isFinite) (hpos : 0 < x.toRat) {r : ℚ} (hr : Representable r)
    (h : ∀ (m : ℕ) (e : ℤ), 2 ^ 52 ≤ m → m < 2 ^ Binary64.precision → x.toRat = m * 2 ^ e →
      r ≤ logRatio m e) : r ≤ x.log2.toRat := by
  have hfinite := isFinite_log2 hx hpos
  obtain ⟨m, e, hlow, hhigh, hvalue, hlog, -, -⟩ := log2_eq_logNormal hx hpos
  obtain ⟨n, d, hd, hnearest, hratio⟩ := logNormal_eq_nearest m e
  rw [hlog, hnearest] at hfinite ⊢
  exact le_toRat_nearest hd hr (hratio ▸ h m e hlow hhigh hvalue) hfinite

/-- The leading place of a number that is at least a power of two. -/
theorem exponent_ge {e k : ℤ} (hhigh : m < 2 ^ Binary64.precision) (h : (2 : ℚ) ^ k ≤ m * 2 ^ e) :
    k ≤ e + 52 := by
  have hless : (2 : ℚ) ^ k < 2 ^ (e + 53) := by
    rw [add_comm, zpow_add₀ two_ne_zero]
    refine h.trans_lt ?_
    gcongr
    exact_mod_cast hhigh
  have := (zpow_lt_zpow_iff_right₀ one_lt_two).mp hless
  omega

/-- The logarithm of a number above one is not rounded to zero. -/
theorem log2_pos (hx : x.isFinite) (h : 1 < x.toRat) : 0 < x.log2.toRat := by
  have hpos : 0 < x.toRat := one_pos.trans h
  have htiny : Representable (2 ^ (-129 : ℤ)) := representable_two_zpow (by norm_num) (by norm_num)
  refine lt_of_lt_of_le (by positivity : (0 : ℚ) < 2 ^ (-129 : ℤ)) (le_log2 hx hpos htiny ?_)
  intro m e hlow hhigh hvalue
  have hplace : 0 ≤ e + 52 := exponent_ge hhigh (by rw [zpow_zero, ← hvalue]; exact h.le)
  rcases hplace.eq_or_lt with hzero | hgreater
  · -- the number is between one and two, and a digit beyond the last is always there
    have hone : m ≠ 2 ^ (Binary64.precision - 1) := by
      rintro rfl
      have he : e = -52 := by omega
      rw [hvalue, he] at h
      norm_num at h
    rw [logRatio, if_neg hone, ← hzero, Int.cast_zero, zero_add, zpow_neg, ← one_div]
    apply div_le_div₀ (by positivity) _ (by positivity) le_rfl
    linarith [(Nat.cast_nonneg (logFloor m) : (0 : ℚ) ≤ logFloor m)]
  · -- from two on the exponent alone is enough
    calc (2 : ℚ) ^ (-129 : ℤ) ≤ 2 ^ (0 : ℤ) := zpow_le_zpow_right₀ one_le_two (by norm_num)
      _ = 1 := zpow_zero 2
      _ ≤ ((e + 52 : ℤ) : ℚ) := by exact_mod_cast hgreater
      _ ≤ logRatio m e := (logRatio_bounds hhigh e).1

/-- From half way between two powers of two on the logarithm is half a unit above the exponent. -/
theorem add_half_le_log2 (hx : x.isFinite) {k : ℕ} (h : 3 / 2 * 2 ^ k ≤ x.toRat) :
    (k : ℚ) + 1 / 2 ≤ x.log2.toRat := by
  have hunit : (0 : ℚ) < 2 ^ k := by positivity
  have hpos : 0 < x.toRat := by linarith
  have hk : k ≤ 1023 := (representable_toRat x).exponent_le (by rw [abs_of_pos hpos]; linarith)
  -- half a unit above a small integer is a double, which rounding does not pass
  have hhalf : Representable ((k : ℚ) + 1 / 2) := by
    have hbits : |2 * (k : ℤ) + 1| ≤ 2 ^ 53 := abs_le.mpr ⟨by omega, by omega⟩
    have hvalue : (k : ℚ) + 1 / 2 = ((2 * (k : ℤ) + 1 : ℤ) : ℚ) * 2 ^ (-1 : ℤ) := by
      push_cast
      ring
    rw [hvalue]
    exact representable_mul_zpow hbits (by norm_num) (by norm_num)
  refine le_log2 hx hpos hhalf ?_
  intro m e hlow hhigh hvalue
  rw [hvalue] at h
  have hplace : (k : ℤ) ≤ e + 52 := exponent_ge hhigh (by rw [zpow_natCast]; linarith)
  rcases hplace.lt_or_eq with hless | hsame
  · -- a greater exponent is enough
    have hnext : (k : ℚ) + 1 ≤ ((e + 52 : ℤ) : ℚ) := by exact_mod_cast hless
    linarith [(logRatio_bounds hhigh e).1]
  · -- with the same exponent the first binary digit of the logarithm is one
    have he : (2 : ℚ) ^ e = 2 ^ k / 2 ^ 52 := by
      rw [show e = (k : ℤ) - (52 : ℕ) by omega, zpow_sub₀ two_ne_zero, zpow_natCast, zpow_natCast]
    have hz : 3 / 2 ≤ (m : ℚ) / 2 ^ 52 := by
      rw [he, mul_div_assoc', mul_comm (m : ℚ), mul_div_assoc, mul_comm] at h
      exact le_of_mul_le_mul_left h hunit
    have hone : m ≠ 2 ^ (Binary64.precision - 1) := by
      rintro rfl
      norm_num at hz
    have hdigit : 2 ^ 127 ≤ logFloor m := IsLogFloor.half (logFloor_spec hlow hhigh) hz
    have hdigitQ : (2 : ℚ) ^ 127 ≤ logFloor m := by exact_mod_cast hdigit
    have hdigits : (2 : ℚ) ^ (logDigits + 1) = 4 * 2 ^ 127 := by
      rw [logDigits]
      norm_num
    have hfraction : 1 / 2 ≤ (2 * (logFloor m : ℚ) + 1) / 2 ^ (logDigits + 1) := by
      rw [le_div_iff₀ (by positivity), hdigits]
      linarith
    rw [logRatio, if_neg hone, ← hsame, Int.cast_natCast]
    linarith

end BinaryPoint.Binary64
