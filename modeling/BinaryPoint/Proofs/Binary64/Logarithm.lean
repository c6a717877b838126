import BinaryPoint.Binary64.Log2
import BinaryPoint.Proofs.Binary64.Nearest

/-! # Sums and logarithms between representable numbers

The results of `+` and `log2` come out of one rounding each, so they stay on their
side of every representable number. For the logarithm that number is an integer: a
power of two below a double gives an integer below the logarithm, and one above it
an integer above (`le_toRat_log2`, `toRat_log2_le`). The digits of the logarithm
need not be known for that.
-/

namespace BinaryPoint.Binary64

/-! ## Sums -/

/-- The integer behind a sum is the exact sum in units of the lower exponent. -/
theorem sumSignificand_mul_zpow (x y : Binary64) :
    (sumSignificand x y : ℚ) * 2 ^ min x.exponent y.exponent = x.toRat + y.toRat := by
  have hx := mul_zpow_of_le (n := x.signedMant) (min_le_left x.exponent y.exponent)
  have hy := mul_zpow_of_le (n := y.signedMant) (min_le_right x.exponent y.exponent)
  rw [toRat_eq_signedMant, toRat_eq_signedMant, hx, hy, ← add_mul]
  simp only [sumSignificand]
  push_cast
  rfl

/-- A sum that is not zero is the exact one, rounded once. -/
theorem add_eq_nearest {x y : Binary64} (hx : x.isFinite) (hy : y.isFinite)
    (hsum : x.toRat + y.toRat ≠ 0) :
    ∃ (n : ℤ) (d : ℕ), 0 < d ∧ x + y = nearest n d ∧ (n : ℚ) / d = x.toRat + y.toRat := by
  have hvalue := sumSignificand_mul_zpow x y
  have hne : sumSignificand x y ≠ 0 := by
    intro h
    rw [h] at hvalue
    exact hsum (by simpa using hvalue.symm)
  generalize hs : sumSignificand x y = s at *
  generalize he : min x.exponent y.exponent = e at *
  refine ⟨s * 2 ^ e.toNat, 2 ^ (-e).toNat, by positivity, ?_, ?_⟩
  · -- the double is that of the scaled sum, whose sign is kept
    have hsign : (s * 2 ^ e.toNat < 0) ↔ s < 0 := by
      constructor
      · intro h
        exact neg_of_mul_neg_left h (by positivity)
      · intro h
        exact mul_neg_of_neg_of_pos h (by positivity)
    have hadd : x + y = ofScaled (s < 0) s.natAbs e := by
      cases x with
      | nan => simp [isFinite] at hx
      | inf => simp [isFinite] at hx
      | finite n m f h =>
        cases y with
        | nan => simp [isFinite] at hy
        | inf => simp [isFinite] at hy
        | finite n' m' f' h' =>
          show Binary64.add _ _ = _
          simp only [Binary64.add, hs, he, hne, if_false]
    rw [hadd, ofScaled, nearest, Int.natAbs_mul, Int.natAbs_pow]
    simp only [hsign]
    rfl
  · -- and its ratio is the exact sum
    rw [← hvalue, two_zpow_eq_div]
    push_cast
    rw [mul_div_assoc]

/-! ## The digits of a logarithm -/

/-- Each step adds one binary digit. -/
theorem logDigitsFrom_lt {precision count acc n : ℕ} {y : Enclosure}
    (h : logDigitsFrom precision count acc y = some n) : n < (acc + 1) * 2 ^ count := by
  induction count generalizing acc y with
  | zero =>
    simp only [logDigitsFrom, Option.some.injEq] at h
    omega
  | succ count ih =>
    rw [logDigitsFrom] at h
    split at h
    · rename_i bit y' _
      have hdigit : bit.toNat ≤ 1 := bit.toNat_le
      calc n < (2 * acc + bit.toNat + 1) * 2 ^ count := ih h
        _ ≤ (2 * acc + 2) * 2 ^ count := Nat.mul_le_mul_right _ (by omega)
        _ = (acc + 1) * 2 ^ (count + 1) := by rw [pow_succ]; ring
    · simp at h

theorem logFloorAt?_lt {precision m n : ℕ} (h : logFloorAt? precision m = some n) :
    n < 2 ^ logDigits := by
  simpa using logDigitsFrom_lt h

/-- A large power of a 53-bit number has at most that multiple of 53 bits. -/
theorem logFloorBy_lt {scale m : ℕ} (hscale : 0 < scale) (hm : m < 2 ^ precision) :
    logFloorBy scale m < scale := by
  unfold logFloorBy
  rcases Nat.eq_zero_or_pos m with rfl | hpos
  · rw [Nat.zero_pow hscale]
    simpa using hscale
  · have hpow : m ^ scale < 2 ^ (53 * scale) := by
      rw [pow_mul]
      exact Nat.pow_lt_pow_left hm hscale.ne'
    have := (Nat.log2_lt (pow_pos hpos scale).ne').mpr hpow
    omega

/-- What holds of each of three sources holds of the first of them that is there. -/
theorem getD_orElse {P : ℕ → Prop} {a b : Option ℕ} {c : ℕ} (ha : ∀ n, a = some n → P n)
    (hb : ∀ n, b = some n → P n) (hc : P c) : P ((a <|> b).getD c) := by
  cases a with
  | some n => exact ha n rfl
  | none =>
    cases b with
    | some n => exact hb n rfl
    | none => exact hc

/-- The digits of a logarithm after the binary point are fewer than `logDigits` bits. -/
theorem logFloor_lt {m : ℕ} (hm : m < 2 ^ precision) : logFloor m < 2 ^ logDigits := by
  rw [logFloor]
  -- the three sources are compared as numbers only: none of them can be evaluated here
  exact getD_orElse (P := (· < 2 ^ logDigits)) (fun n => logFloorAt?_lt) (fun n => logFloorAt?_lt)
    (logFloorBy_lt (Nat.two_pow_pos logDigits) hm)

/-! ## Logarithms -/

/-- The number whose rounding the logarithm of a normal number is. -/
def logRatio (m : ℕ) (e : ℤ) : ℚ :=
  if m = 2 ^ (precision - 1) then (e + 52 : ℤ)
  else (e + 52 : ℤ) + (2 * logFloor m + 1) / 2 ^ (logDigits + 1)

theorem logNormal_eq_nearest (m : ℕ) (e : ℤ) :
    ∃ (n : ℤ) (d : ℕ), 0 < d ∧ logNormal m e = nearest n d ∧ (n : ℚ) / d = logRatio m e := by
  rw [logNormal, logRatio]
  split
  · exact ⟨e + 52, 1, one_pos, rfl, by rw [Nat.cast_one, div_one]⟩
  · refine ⟨2 * ((e + 52) * 2 ^ logDigits + logFloor m) + 1, 2 ^ (logDigits + 1),
      by positivity, rfl, ?_⟩
    generalize logFloor m = digits
    generalize logDigits = k
    have hunit : (0 : ℚ) < 2 ^ k := by positivity
    push_cast
    rw [pow_succ]
    field_simp
    ring

/-- That number is between the two integers next to the exact logarithm. -/
theorem logRatio_bounds {m : ℕ} (hm : m < 2 ^ precision) (e : ℤ) :
    ((e + 52 : ℤ) : ℚ) ≤ logRatio m e ∧ logRatio m e ≤ ((e + 52 : ℤ) : ℚ) + 1 := by
  have hdigits := logFloor_lt hm
  rw [logRatio]
  split
  · exact ⟨le_rfl, by linarith⟩
  · generalize logFloor m = digits at *
    generalize logDigits = k at *
    have hlt : (digits : ℚ) + 1 ≤ 2 ^ k := by exact_mod_cast hdigits
    have hfraction : (2 * (digits : ℚ) + 1) / 2 ^ (k + 1) ≤ 1 := by
      rw [div_le_one (by positivity), pow_succ]
      linarith
    exact ⟨le_add_of_nonneg_right (by positivity), by linarith⟩

/-- A positive double in its normal form, from which the logarithm is computed. -/
theorem log2_eq_logNormal {x : Binary64} (hx : x.isFinite) (hpos : 0 < x.toRat) :
    ∃ (m : ℕ) (e : ℤ), 2 ^ 52 ≤ m ∧ m < 2 ^ precision ∧ x.toRat = m * 2 ^ e ∧
      x.log2 = logNormal m e ∧ -1126 ≤ e ∧ e ≤ 971 := by
  cases x with
  | nan => simp [isFinite] at hx
  | inf => simp [isFinite] at hx
  | finite negative m e hcanonical =>
    have hbits : m < 2 ^ 53 := hcanonical.1
    have hlow : -1074 ≤ e := hcanonical.2.1
    have hhigh : e ≤ 971 := hcanonical.2.2.1
    have hunit : (0 : ℚ) < 2 ^ e := by positivity
    cases negative with
    | true =>
      -- a negative double is not positive
      have : (finite true m e hcanonical).toRat = -(m * 2 ^ e) := by simp [toRat]
      rw [this] at hpos
      have : (0 : ℚ) ≤ m * 2 ^ e := by positivity
      linarith
    | false =>
      have hvalue : (finite false m e hcanonical).toRat = m * 2 ^ e := by simp [toRat]
      rw [hvalue] at hpos ⊢
      have hm : m ≠ 0 := by
        rintro rfl
        simp at hpos
      -- the mantissa is shifted until its leading bit is the 53rd one
      have hlead : m.log2 ≤ 52 := by
        have := (Nat.log2_lt hm).mpr hbits
        omega
      have hbelow := Nat.log2_self_le hm
      have habove : m < 2 ^ (m.log2 + 1) := Nat.lt_log2_self
      refine ⟨m * 2 ^ (52 - m.log2), e - (52 - m.log2 : ℕ), ?_, ?_, ?_, rfl, by omega, by omega⟩
      · calc 2 ^ 52 = 2 ^ m.log2 * 2 ^ (52 - m.log2) := by rw [← pow_add]; congr 1; omega
          _ ≤ m * 2 ^ (52 - m.log2) := by gcongr
      · calc m * 2 ^ (52 - m.log2) < 2 ^ (m.log2 + 1) * 2 ^ (52 - m.log2) := by gcongr
          _ = 2 ^ 53 := by rw [← pow_add]; congr 1; omega
      · rw [zpow_sub₀ two_ne_zero, zpow_natCast]
        push_cast
        field_simp

/-- The logarithm of a positive double in `[2^k, 2^(k+1))` is the rounding of a number in
`[k, k + 1]`. -/
theorem log2_eq_nearest {x : Binary64} (hx : x.isFinite) (hpos : 0 < x.toRat) :
    ∃ (k n : ℤ) (d : ℕ), 0 < d ∧ x.log2 = nearest n d ∧
      (2 : ℚ) ^ k ≤ x.toRat ∧ x.toRat < 2 ^ (k + 1) ∧
      (k : ℚ) ≤ n / d ∧ (n : ℚ) / d ≤ k + 1 ∧ -1074 ≤ k ∧ k ≤ 1023 := by
  obtain ⟨m, e, hlow, hbits, hvalue, hlog, helow, hehigh⟩ := log2_eq_logNormal hx hpos
  obtain ⟨n, d, hd, hnormal, hratio⟩ := logNormal_eq_nearest m e
  obtain ⟨hfloor, hceil⟩ := logRatio_bounds hbits e
  refine ⟨e + 52, n, d, hd, hlog.trans hnormal, ?_, ?_, hratio ▸ hfloor, hratio ▸ hceil,
    by omega, by omega⟩
  · rw [hvalue, zpow_add₀ two_ne_zero, mul_comm]
    gcongr
    exact_mod_cast hlow
  · rw [hvalue, add_assoc, zpow_add₀ two_ne_zero, mul_comm]
    gcongr
    exact_mod_cast hbits

/-- Exponents are few enough to be doubles. -/
theorem representable_exponent {k : ℤ} (hlow : -1074 ≤ k) (hhigh : k ≤ 1024) :
    Representable (k : ℚ) := by
  apply representable_intCast
  show |k| ≤ 2 ^ 53
  rw [abs_le]
  omega

/-- The integers next to a logarithm are far inside the range of doubles. -/
theorem isFinite_log2 {x : Binary64} (hx : x.isFinite) (hpos : 0 < x.toRat) :
    x.log2.isFinite := by
  obtain ⟨k, n, d, hd, hlog, -, -, hfloor, hceil, hlow, hhigh⟩ := log2_eq_nearest hx hpos
  rw [hlog]
  apply isFinite_nearest hd
  have hsmall : |(n : ℚ) / d| ≤ 1074 := by
    have : (-1074 : ℚ) ≤ k := by exact_mod_cast hlow
    have : (k : ℚ) ≤ 1023 := by exact_mod_cast hhigh
    rw [abs_le]
    constructor <;> linarith
  obtain ⟨u, hu, h970, -, -, h1024⟩ := top_powers
  have hunit : (2 : ℚ) ^ (11 : ℤ) ≤ 2 ^ (970 : ℤ) := zpow_le_zpow_right₀ one_le_two (by norm_num)
  have h11 : (2 : ℚ) ^ (11 : ℤ) = 2048 := by norm_num
  rw [h970, h11] at hunit
  rw [h970, h1024]
  linarith only [hsmall, hunit]

theorem le_toRat_log2 {x : Binary64} (hx : x.isFinite) (hpos : 0 < x.toRat) {n : ℤ}
    (h : (2 : ℚ) ^ n ≤ x.toRat) : (n : ℚ) ≤ x.log2.toRat := by
  have hfinite := isFinite_log2 hx hpos
  obtain ⟨k, num, d, hd, hlog, -, habove, hfloor, -, hlow, hhigh⟩ := log2_eq_nearest hx hpos
  rw [hlog] at hfinite ⊢
  have hk : Representable (k : ℚ) := representable_exponent hlow (by omega)
  have hnk : n < k + 1 := (zpow_lt_zpow_iff_right₀ one_lt_two).mp (h.trans_lt habove)
  calc (n : ℚ) ≤ k := by exact_mod_cast Int.lt_add_one_iff.mp hnk
    _ ≤ (nearest num d).toRat := le_toRat_nearest hd hk hfloor hfinite

theorem toRat_log2_le {x : Binary64} (hx : x.isFinite) (hpos : 0 < x.toRat) {n : ℤ}
    (h : x.toRat ≤ (2 : ℚ) ^ n) : x.log2.toRat ≤ n := by
  have hfinite := isFinite_log2 hx hpos
  obtain ⟨m, e, hfull, hbits, hvalue, hlog, hlow, hhigh⟩ := log2_eq_logNormal hx hpos
  obtain ⟨num, d, hd, hnormal, hratio⟩ := logNormal_eq_nearest m e
  rw [hlog, hnormal] at hfinite ⊢
  have hpower : (2 : ℚ) ^ (e + 52) = 2 ^ 52 * 2 ^ e := by
    rw [zpow_add₀ two_ne_zero, mul_comm]
    rfl
  have hfullQ : (2 : ℚ) ^ 52 ≤ m := by exact_mod_cast hfull
  have hbelow : (2 : ℚ) ^ (e + 52) ≤ m * 2 ^ e := by
    rw [hpower]
    gcongr
  have hplace : e + 52 ≤ n :=
    (zpow_le_zpow_iff_right₀ one_lt_two).mp (hbelow.trans (hvalue ▸ h))
  rcases hplace.lt_or_eq with hless | rfl
  · have hnext : Representable ((e + 52 + 1 : ℤ) : ℚ) := representable_exponent (by omega) (by omega)
    calc (nearest num d).toRat ≤ ((e + 52 + 1 : ℤ) : ℚ) := by
          apply toRat_nearest_le hd hnext _ hfinite
          rw [hratio]
          exact_mod_cast (logRatio_bounds hbits e).2
      _ ≤ n := by exact_mod_cast hless
  · -- the power of two itself has an exact logarithm
    have hm : m = 2 ^ (precision - 1) := by
      rw [hvalue, hpower] at h
      exact le_antisymm (by exact_mod_cast le_of_mul_le_mul_right h (by positivity)) hfull
    apply toRat_nearest_le hd (representable_exponent (by omega) (by omega)) _ hfinite
    rw [hratio, logRatio, if_pos hm]

end BinaryPoint.Binary64
