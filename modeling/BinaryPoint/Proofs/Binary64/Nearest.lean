import BinaryPoint.Proofs.Binary64.Value
import Mathlib.Algebra.Order.Field.Power

/-! # The nearest double

What `ofRatio` makes of a quotient, in terms of the quotient alone. The
significand is chosen on the grid of the quotient's last place, and every
representable number is on that grid or below all of its normal points. So a
representable number on one side of the quotient stays on that side of the result:

* `le_toRat_nearest`, `toRat_nearest_le`: rounding does not pass a representable number;
* `toRat_nearest`: a representable quotient is its own rounding;
* `isFinite_nearest`: there is no overflow below `2^1024 - 2^970`.
-/

namespace BinaryPoint

/-- An integer power of two as a quotient of the two natural powers that make it up. -/
theorem two_zpow_eq_div (e : ℤ) : (2 : ℚ) ^ e = 2 ^ e.toNat / 2 ^ (-e).toNat := by
  rcases le_total 0 e with h | h
  · obtain ⟨k, rfl⟩ := Int.eq_ofNat_of_zero_le h
    simp
  · obtain ⟨k, rfl⟩ : ∃ k : ℕ, e = -k := ⟨(-e).toNat, by omega⟩
    simp [zpow_neg]

/-! ## The nearest integer -/

theorem le_nearestEven {num den k : ℕ} (hden : 0 < den) (h : k * den ≤ num) :
    k ≤ nearestEven num den := by
  have hk : k ≤ num / den := (Nat.le_div_iff_mul_le hden).mpr h
  simp only [nearestEven]
  split
  · exact hk
  · split <;> omega

/-- A quotient that is not above the middle after `k` is rounded to `k` at most, if it is
not the middle itself. -/
theorem nearestEven_le_of_lt {num den k : ℕ} (hden : 0 < den)
    (h : 2 * num < (2 * k + 1) * den) : nearestEven num den ≤ k := by
  have hdiv := Nat.div_add_mod num den
  have hmod := Nat.mod_lt num hden
  simp only [nearestEven]
  generalize num / den = q at *
  generalize num % den = r at *
  have hq : q ≤ k := by
    by_contra hgt
    have : den * (k + 1) ≤ den * q := Nat.mul_le_mul_left den (by omega)
    nlinarith
  rcases hq.lt_or_eq with hlt | rfl
  · -- with a smaller quotient there is room for rounding up
    split
    · omega
    · split <;> omega
  · -- with the same quotient the remainder is below the middle
    have hr : 2 * r < den := by nlinarith
    rw [if_pos hr]

theorem nearestEven_le {num den k : ℕ} (hden : 0 < den) (h : num ≤ k * den) :
    nearestEven num den ≤ k :=
  nearestEven_le_of_lt hden (by nlinarith)

/-! ## The exponent of the last place -/

/-- The binary exponent of a quotient is the one of the power of two below it. -/
theorem binaryExponent_spec {num den : ℕ} (hnum : num ≠ 0) (hden : 0 < den) :
    (2 : ℚ) ^ binaryExponent num den ≤ num / den ∧
      (num : ℚ) / den < 2 ^ (binaryExponent num den + 1) := by
  have hdenQ : (0 : ℚ) < den := by exact_mod_cast hden
  have hnumLow : (2 : ℚ) ^ num.log2 ≤ num := by exact_mod_cast Nat.log2_self_le hnum
  have hnumHigh : (num : ℚ) < 2 ^ (num.log2 + 1) := by exact_mod_cast Nat.lt_log2_self
  have hdenLow : (2 : ℚ) ^ den.log2 ≤ den := by exact_mod_cast Nat.log2_self_le hden.ne'
  have hdenHigh : (den : ℚ) < 2 ^ (den.log2 + 1) := by exact_mod_cast Nat.lt_log2_self
  -- the quotient of the leading powers is at most one binary place too high
  have hbelow : (2 : ℚ) ^ ((num.log2 : ℤ) - den.log2 - 1) ≤ num / den := by
    rw [le_div_iff₀ hdenQ]
    calc (2 : ℚ) ^ ((num.log2 : ℤ) - den.log2 - 1) * den
        ≤ 2 ^ ((num.log2 : ℤ) - den.log2 - 1) * 2 ^ ((den.log2 : ℤ) + 1) := by
          gcongr
          exact_mod_cast hdenHigh.le
      _ = 2 ^ num.log2 := by
          rw [← zpow_add₀ two_ne_zero, ← zpow_natCast]
          congr 1
          ring
      _ ≤ num := hnumLow
  have habove : (num : ℚ) / den < 2 ^ ((num.log2 : ℤ) - den.log2 + 1) := by
    rw [div_lt_iff₀ hdenQ]
    calc (num : ℚ) < 2 ^ (num.log2 + 1) := hnumHigh
      _ = 2 ^ ((num.log2 : ℤ) - den.log2 + 1) * 2 ^ den.log2 := by
          rw [← zpow_natCast, ← zpow_natCast, ← zpow_add₀ two_ne_zero]
          congr 1
          push_cast
          ring
      _ ≤ 2 ^ ((num.log2 : ℤ) - den.log2 + 1) * den := by gcongr
  simp only [binaryExponent]
  generalize (num.log2 : ℤ) - den.log2 = e at *
  have htest : den * 2 ^ e.toNat ≤ num * 2 ^ (-e).toNat ↔ (2 : ℚ) ^ e ≤ num / den := by
    rw [two_zpow_eq_div, div_le_div_iff₀ (by positivity) hdenQ, mul_comm _ (den : ℚ)]
    exact_mod_cast Iff.rfl
  by_cases h : den * 2 ^ e.toNat ≤ num * 2 ^ (-e).toNat
  · rw [if_pos h]
    exact ⟨htest.mp h, habove⟩
  · rw [if_neg h, sub_add_cancel]
    exact ⟨hbelow, not_le.mp (fun hle => h (htest.mpr hle))⟩

namespace Binary64

/-- At its last place a quotient has at most 53 bits, and all of them unless the place is
the last one of the format. -/
theorem lastPlace_spec {num den : ℕ} (hnum : num ≠ 0) (hden : 0 < den) :
    (num : ℚ) / den < 2 ^ 53 * 2 ^ lastPlace num den ∧ -1074 ≤ lastPlace num den ∧
      (lastPlace num den = -1074 ∨ 2 ^ 52 * 2 ^ lastPlace num den ≤ (num : ℚ) / den) := by
  obtain ⟨hlow, hhigh⟩ := binaryExponent_spec hnum hden
  have hlast : lastPlace num den = max (-1074) (binaryExponent num den - 52) := rfl
  generalize binaryExponent num den = k at *
  generalize lastPlace num den = e at *
  refine ⟨?_, by omega, ?_⟩
  · calc (num : ℚ) / den < 2 ^ (k + 1) := hhigh
      _ ≤ 2 ^ (53 + e) := zpow_le_zpow_right₀ one_le_two (by omega)
      _ = 2 ^ 53 * 2 ^ e := by rw [zpow_add₀ two_ne_zero]; norm_num
  · -- either the format has no further places, or the leading bit is the 53rd one
    rcases le_total (k - 52) (-1074) with h | h
    · exact .inl (by omega)
    · right
      calc (2 : ℚ) ^ 52 * 2 ^ e = 2 ^ k := by
            rw [show k = 52 + e by omega, zpow_add₀ two_ne_zero]
            norm_num
        _ ≤ num / den := hlow

/-- The significand of a quotient at its last place, before a carry. -/
def significand (num den : ℕ) : ℕ :=
  nearestEven (num * 2 ^ (-lastPlace num den).toNat) (den * 2 ^ (lastPlace num den).toNat)

/-- The number that a quotient is rounded to if that is not too large. -/
def roundedRatio (num den : ℕ) : ℚ := significand num den * 2 ^ lastPlace num den

/-- The division for the significand is that of the quotient by the unit of its place. -/
theorem scaled_quotient (num den : ℕ) (e : ℤ) :
    ((num * 2 ^ (-e).toNat : ℕ) : ℚ) / (den * 2 ^ e.toNat : ℕ) = num / den / 2 ^ e := by
  push_cast
  rw [two_zpow_eq_div, div_div_eq_mul_div, mul_div_mul_comm, mul_div_assoc]

/-- So a bound on the quotient, in units of a place, is one on the numerator of that division. -/
theorem scaled_le_iff {num den : ℕ} {e : ℤ} {q : ℚ} (hden : 0 < den) :
    ((num * 2 ^ (-e).toNat : ℕ) : ℚ) ≤ q * (den * 2 ^ e.toNat : ℕ) ↔
      (num : ℚ) / den ≤ q * 2 ^ e := by
  have hscaled : (0 : ℚ) < (den * 2 ^ e.toNat : ℕ) := by positivity
  rw [← div_le_iff₀ hscaled, scaled_quotient, div_le_iff₀ (by positivity)]

theorem le_scaled_iff {num den : ℕ} {e : ℤ} {q : ℚ} (hden : 0 < den) :
    q * (den * 2 ^ e.toNat : ℕ) ≤ ((num * 2 ^ (-e).toNat : ℕ) : ℚ) ↔
      q * 2 ^ e ≤ (num : ℚ) / den := by
  have hscaled : (0 : ℚ) < (den * 2 ^ e.toNat : ℕ) := by positivity
  rw [← le_div_iff₀ hscaled, scaled_quotient, le_div_iff₀ (by positivity)]

theorem le_significand {num den k : ℕ} (hden : 0 < den)
    (h : (k : ℚ) * 2 ^ lastPlace num den ≤ num / den) : k ≤ significand num den :=
  le_nearestEven (by positivity) (by exact_mod_cast (le_scaled_iff hden).mpr h)

theorem significand_le {num den k : ℕ} (hden : 0 < den)
    (h : (num : ℚ) / den ≤ k * 2 ^ lastPlace num den) : significand num den ≤ k :=
  nearestEven_le (by positivity) (by exact_mod_cast (scaled_le_iff hden).mpr h)

/-- Just below a middle between two neighbours the lower one is taken. -/
theorem significand_le_of_lt {num den k : ℕ} (hden : 0 < den)
    (h : (num : ℚ) / den < (k + 1 / 2) * 2 ^ lastPlace num den) : significand num den ≤ k := by
  have hbelow := lt_of_not_ge (mt (le_scaled_iff hden).mp h.not_ge)
  have hdouble : (2 : ℚ) * (num * 2 ^ (-lastPlace num den).toNat : ℕ) <
      (2 * k + 1) * (den * 2 ^ (lastPlace num den).toNat : ℕ) := by linarith only [hbelow]
  exact nearestEven_le_of_lt (by positivity) (by exact_mod_cast hdouble)

/-- A representable number that is not a multiple of the last place is below every
significand with all bits used. -/
theorem lt_of_exponent_lt {n f e : ℤ} (hn : |n| < 2 ^ precision) (h : f < e) :
    (n : ℚ) * 2 ^ f < 2 ^ 52 * 2 ^ e := by
  have hnQ : (n : ℚ) < 2 ^ 53 := by exact_mod_cast (abs_lt.mp hn).2
  calc (n : ℚ) * 2 ^ f < 2 ^ 53 * 2 ^ f := by gcongr
    _ = 2 ^ 52 * 2 ^ (f + 1) := by rw [zpow_add_one₀ two_ne_zero]; ring
    _ ≤ 2 ^ 52 * 2 ^ e := by
        gcongr
        · exact one_le_two
        · omega

/-- A multiple of a higher place, as a multiple of a lower one. -/
theorem mul_zpow_of_le {n f e : ℤ} (h : e ≤ f) :
    (n : ℚ) * 2 ^ f = (n * 2 ^ (f - e).toNat : ℤ) * 2 ^ e := by
  obtain ⟨k, rfl⟩ : ∃ k : ℕ, f = e + k := ⟨(f - e).toNat, by omega⟩
  rw [zpow_add₀ two_ne_zero, show (e + k - e).toNat = k by omega]
  push_cast
  rw [zpow_natCast]
  ring

/-- Rounding does not go below a representable number. -/
theorem le_roundedRatio {num den : ℕ} (hnum : num ≠ 0) (hden : 0 < den) {r : ℚ}
    (hr : Representable r) (h : r ≤ (num : ℚ) / den) : r ≤ roundedRatio num den := by
  obtain ⟨n, f, rfl, hn, hlow, -⟩ := hr
  obtain ⟨-, hlast, hnormal⟩ := lastPlace_spec hnum hden
  unfold roundedRatio
  rcases le_or_gt (lastPlace num den) f with hf | hf
  · -- the number is on the grid of the quotient
    rw [mul_zpow_of_le hf] at h ⊢
    generalize n * 2 ^ (f - lastPlace num den).toNat = k at *
    rcases le_total k 0 with hk | hk
    · calc (k : ℚ) * 2 ^ lastPlace num den ≤ 0 :=
            mul_nonpos_of_nonpos_of_nonneg (by exact_mod_cast hk) (by positivity)
        _ ≤ significand num den * 2 ^ lastPlace num den := by positivity
    · obtain ⟨k, rfl⟩ := Int.eq_ofNat_of_zero_le hk
      have := le_significand hden (by exact_mod_cast h : (k : ℚ) * _ ≤ _)
      gcongr
      exact_mod_cast this
  · -- the number has places that the quotient's grid lacks, so it is below all full significands
    have hfull := hnormal.resolve_left (by omega)
    have hsig : 2 ^ 52 ≤ significand num den := le_significand hden (by exact_mod_cast hfull)
    calc (n : ℚ) * 2 ^ f ≤ 2 ^ 52 * 2 ^ lastPlace num den := (lt_of_exponent_lt hn hf).le
      _ ≤ significand num den * 2 ^ lastPlace num den := by
          gcongr
          exact_mod_cast hsig

/-- Rounding does not go above a representable number. -/
theorem roundedRatio_le {num den : ℕ} (hnum : num ≠ 0) (hden : 0 < den) {r : ℚ}
    (hr : Representable r) (h : (num : ℚ) / den ≤ r) : roundedRatio num den ≤ r := by
  obtain ⟨n, f, rfl, hn, hlow, -⟩ := hr
  obtain ⟨-, hlast, hnormal⟩ := lastPlace_spec hnum hden
  have hpos : (0 : ℚ) ≤ num / den := by positivity
  unfold roundedRatio
  rcases le_or_gt (lastPlace num den) f with hf | hf
  · -- again the number is on the grid of the quotient
    rw [mul_zpow_of_le hf] at h ⊢
    generalize n * 2 ^ (f - lastPlace num den).toNat = k at *
    have hk : (0 : ℚ) ≤ k := by
      by_contra hneg
      have : (k : ℚ) * 2 ^ lastPlace num den < 0 :=
        mul_neg_of_neg_of_pos (not_le.mp hneg) (by positivity)
      linarith
    obtain ⟨k, rfl⟩ := Int.eq_ofNat_of_zero_le (by exact_mod_cast hk : (0 : ℤ) ≤ k)
    have := significand_le hden (by exact_mod_cast h : _ ≤ (k : ℚ) * _)
    gcongr
    exact_mod_cast this
  · -- or below a full significand, which the quotient has
    have hfull := hnormal.resolve_left (by omega)
    have := lt_of_exponent_lt hn hf
    linarith

/-! ## Results as doubles -/

theorem ofParts_of_canonical {negative : Bool} {mant : ℕ} {exp : ℤ} (h : Canonical mant exp) :
    ofParts negative mant exp = .finite negative mant exp h := by
  rw [ofParts, dif_pos h]

theorem ofParts_of_not_canonical {negative : Bool} {mant : ℕ} {exp : ℤ}
    (h : ¬ Canonical mant exp) : ofParts negative mant exp = .inf negative := by
  rw [ofParts, dif_neg h]

/-- Where the significand carries over into another bit, it is moved to the next place. -/
theorem ofRatio_of_ne_zero (negative : Bool) {num den : ℕ} (hnum : num ≠ 0) :
    ofRatio negative num den =
      if significand num den = 2 ^ 53 then ofParts negative (2 ^ 52) (lastPlace num den + 1)
      else ofParts negative (significand num den) (lastPlace num den) := by
  rw [ofRatio, if_neg hnum]
  rfl

/-- A rounded quotient is put together from a significand and an exponent that are those of
a double unless the exponent is too large. -/
theorem ofRatio_eq_ofParts (negative : Bool) {num den : ℕ} (hnum : num ≠ 0) (hden : 0 < den) :
    ∃ (mant : ℕ) (exp : ℤ), ofRatio negative num den = ofParts negative mant exp ∧
      (mant : ℚ) * 2 ^ exp = roundedRatio num den ∧ mant < 2 ^ precision ∧ -1074 ≤ exp ∧
      (2 ^ (precision - 1) ≤ mant ∨ exp = -1074) := by
  obtain ⟨hbits, hlast, hnormal⟩ := lastPlace_spec hnum hden
  have hle : significand num den ≤ 2 ^ 53 := by
    apply significand_le hden
    push_cast
    exact hbits.le
  have hfull : 2 ^ 52 ≤ significand num den ∨ lastPlace num den = -1074 := by
    rcases hnormal with h | h
    · exact .inr h
    · left
      apply le_significand hden
      push_cast
      exact h
  -- a significand of 54 bits can only be the power of two itself
  by_cases hcarry : significand num den = 2 ^ 53
  · refine ⟨2 ^ 52, lastPlace num den + 1, ?_, ?_, by norm_num, by omega, .inl le_rfl⟩
    · rw [ofRatio_of_ne_zero negative hnum, if_pos hcarry]
    · rw [roundedRatio, hcarry, zpow_add_one₀ two_ne_zero]
      push_cast
      ring
  · refine ⟨significand num den, lastPlace num den, ?_, rfl, ?_, hlast, hfull⟩
    · rw [ofRatio_of_ne_zero negative hnum, if_neg hcarry]
    · exact lt_of_le_of_ne hle hcarry

/-- The powers of two at the top of the format, in units of half the last place there. -/
theorem top_powers : ∃ u : ℚ, 0 < u ∧ (2 : ℚ) ^ (970 : ℤ) = u ∧ (2 : ℚ) ^ (971 : ℤ) = 2 * u ∧
    (2 : ℚ) ^ (972 : ℤ) = 4 * u ∧ (2 : ℚ) ^ (1024 : ℤ) = 2 ^ 54 * u := by
  have hsplit (k : ℤ) : (2 : ℚ) ^ (k + 970) = 2 ^ k * 2 ^ (970 : ℤ) := zpow_add₀ two_ne_zero k 970
  refine ⟨2 ^ (970 : ℤ), by positivity, rfl, ?_, ?_, hsplit 54⟩
  · rw [← zpow_one (2 : ℚ), ← zpow_mul]
    exact hsplit 1
  · have hfour : (4 : ℚ) = 2 ^ (2 : ℤ) := by norm_num
    rw [hfour]
    exact hsplit 2

/-- A quotient has a nearest finite double just if it is rounded below `2^1024`. -/
theorem isFinite_ofRatio_iff (negative : Bool) {num den : ℕ} (hnum : num ≠ 0) (hden : 0 < den) :
    (ofRatio negative num den).isFinite ↔ roundedRatio num den < 2 ^ (1024 : ℤ) := by
  obtain ⟨mant, exp, hparts, hvalue, hbits, hlow, hfull⟩ := ofRatio_eq_ofParts negative hnum hden
  obtain ⟨u, hu, h970, h971, h972, h1024⟩ := top_powers
  rw [hparts, ← hvalue]
  rcases le_or_gt exp 971 with hexp | hexp
  · -- the exponent is one of the format
    rw [ofParts_of_canonical ⟨hbits, hlow, hexp, hfull⟩]
    refine iff_of_true rfl ?_
    calc (mant : ℚ) * 2 ^ exp < 2 ^ 53 * 2 ^ exp := by
          gcongr
          exact_mod_cast hbits
      _ ≤ 2 ^ 53 * 2 ^ (971 : ℤ) := by
          gcongr
          exact one_le_two
      _ = 2 ^ (1024 : ℤ) := by rw [h971, h1024]; ring
  · -- the exponent is too large, and all bits of the significand are in use
    rw [ofParts_of_not_canonical (by intro h; exact absurd h.2.2.1 (by omega))]
    refine iff_of_false (by simp [isFinite]) (not_lt.mpr ?_)
    have hmant : 2 ^ 52 ≤ mant := hfull.resolve_right (by omega)
    calc (2 : ℚ) ^ (1024 : ℤ) = 2 ^ 52 * 2 ^ (972 : ℤ) := by rw [h972, h1024]; ring
      _ ≤ (mant : ℚ) * 2 ^ exp := by
          gcongr
          · exact_mod_cast hmant
          · exact one_le_two
          · omega

theorem toRat_ofRatio {negative : Bool} {num den : ℕ} (hnum : num ≠ 0) (hden : 0 < den)
    (hfinite : (ofRatio negative num den).isFinite) :
    (ofRatio negative num den).toRat =
      if negative then -roundedRatio num den else roundedRatio num den := by
  obtain ⟨mant, exp, hparts, hvalue, hbits, hlow, hfull⟩ := ofRatio_eq_ofParts negative hnum hden
  rw [hparts] at hfinite ⊢
  by_cases h : Canonical mant exp
  · rw [ofParts_of_canonical h, toRat, ← hvalue]
    cases negative <;> simp
  · rw [ofParts_of_not_canonical h] at hfinite
    simp [isFinite] at hfinite

/-- The greatest number of a finite double. -/
theorem representable_greatest : Representable ((2 ^ 53 - 1) * 2 ^ (971 : ℤ)) := by
  have hbits : ((2 ^ 53 - 1 : ℤ) : ℚ) = 2 ^ 53 - 1 := by norm_num
  exact ⟨2 ^ 53 - 1, 971, by rw [hbits], by norm_num, by norm_num, le_rfl⟩

/-- There is no overflow up to the middle between the greatest double and the next step. -/
theorem roundedRatio_lt {num den : ℕ} (hnum : num ≠ 0) (hden : 0 < den)
    (h : (num : ℚ) / den < 2 ^ (1024 : ℤ) - 2 ^ (970 : ℤ)) :
    roundedRatio num den < 2 ^ (1024 : ℤ) := by
  obtain ⟨u, hu, h970, h971, h972, h1024⟩ := top_powers
  rw [h970, h1024] at h
  rcases le_or_gt ((num : ℚ) / den) ((2 ^ 53 - 1) * 2 ^ (971 : ℤ)) with hle | hgt
  · -- up to the greatest double its rounding is that double at most
    have := roundedRatio_le hnum hden representable_greatest hle
    rw [h971] at this
    rw [h1024]
    linarith only [this, hu]
  · -- between it and the middle, the last place is that of the greatest double
    obtain ⟨hbits, -, hnormal⟩ := lastPlace_spec hnum hden
    have hplace : lastPlace num den = 971 := by
      apply le_antisymm
      · by_contra hlarge
        have hfull := hnormal.resolve_left (by omega)
        have : (2 : ℚ) ^ (972 : ℤ) ≤ 2 ^ lastPlace num den :=
          zpow_le_zpow_right₀ one_le_two (by omega)
        rw [h972] at this
        linarith only [this, hfull, h, hu]
      · by_contra hsmall
        have : (2 : ℚ) ^ lastPlace num den ≤ 2 ^ (970 : ℤ) :=
          zpow_le_zpow_right₀ one_le_two (by omega)
        rw [h970] at this
        rw [h971] at hgt
        linarith only [this, hgt, hbits, hu]
    -- and below the middle the significand does not carry over
    have hsig : significand num den ≤ 2 ^ 53 - 1 := by
      apply significand_le_of_lt hden
      rw [hplace, h971]
      push_cast
      linarith only [h]
    have hsigQ : (significand num den : ℚ) ≤ 2 ^ 53 - 1 := by
      have : (significand num den : ℚ) ≤ ((2 ^ 53 - 1 : ℕ) : ℚ) := by exact_mod_cast hsig
      norm_num at this ⊢
      exact this
    rw [roundedRatio, hplace, h971, h1024]
    calc (significand num den : ℚ) * (2 * u) ≤ (2 ^ 53 - 1) * (2 * u) := by gcongr
      _ < 2 ^ 54 * u := by linarith only [hu]

/-! ## The nearest double of a quotient with a sign -/

/-- The double nearest to `n / d`. -/
def nearest (n : ℤ) (d : ℕ) : Binary64 := ofRatio (n < 0) n.natAbs d

/-- The two ways in which a quotient with a sign is rounded: zero, or a magnitude. -/
theorem toRat_nearest_eq {n : ℤ} {d : ℕ} (hn : n ≠ 0) (hd : 0 < d)
    (hfinite : (nearest n d).isFinite) :
    (nearest n d).toRat =
      if n < 0 then -roundedRatio n.natAbs d else roundedRatio n.natAbs d := by
  rw [nearest, toRat_ofRatio (by omega) hd hfinite]
  simp

theorem nearest_zero (d : ℕ) : nearest 0 d = zero false := by
  simp [nearest, ofRatio]

theorem natAbs_div_of_neg {n : ℤ} {d : ℕ} (h : n < 0) : ((n.natAbs : ℚ) / d) = -(n / d) := by
  rw [Nat.cast_natAbs, abs_of_neg h]
  push_cast
  rw [neg_div]

theorem natAbs_div_of_nonneg {n : ℤ} {d : ℕ} (h : 0 ≤ n) : ((n.natAbs : ℚ) / d) = n / d := by
  rw [Nat.cast_natAbs, abs_of_nonneg h]

/-- There is no overflow as long as the magnitude is below `2^1024 - 2^970`. -/
theorem isFinite_nearest {n : ℤ} {d : ℕ} (hd : 0 < d)
    (h : |(n : ℚ) / d| < 2 ^ (1024 : ℤ) - 2 ^ (970 : ℤ)) : (nearest n d).isFinite := by
  rcases eq_or_ne n 0 with rfl | hn
  · rw [nearest_zero]
    rfl
  · rw [nearest, isFinite_ofRatio_iff _ (by omega) hd]
    apply roundedRatio_lt (by omega) hd
    rwa [abs_div, Nat.abs_cast, ← Int.cast_abs, ← Nat.cast_natAbs] at h

/-- Rounding does not go below a representable number. -/
theorem le_toRat_nearest {n : ℤ} {d : ℕ} (hd : 0 < d) {r : ℚ} (hr : Representable r)
    (h : r ≤ n / d) (hfinite : (nearest n d).isFinite) : r ≤ (nearest n d).toRat := by
  rcases eq_or_ne n 0 with rfl | hn
  · simpa [nearest_zero] using h
  · rw [toRat_nearest_eq hn hd hfinite]
    rcases lt_or_ge n 0 with hneg | hpos
    · rw [if_pos hneg]
      have hle : ((n.natAbs : ℚ) / d) ≤ -r := by
        rw [natAbs_div_of_neg hneg]
        linarith
      linarith [roundedRatio_le (by omega) hd hr.neg hle]
    · rw [if_neg (by omega)]
      exact le_roundedRatio (by omega) hd hr (by rwa [natAbs_div_of_nonneg hpos])

/-- Rounding does not go above a representable number. -/
theorem toRat_nearest_le {n : ℤ} {d : ℕ} (hd : 0 < d) {r : ℚ} (hr : Representable r)
    (h : (n : ℚ) / d ≤ r) (hfinite : (nearest n d).isFinite) : (nearest n d).toRat ≤ r := by
  rcases eq_or_ne n 0 with rfl | hn
  · simpa [nearest_zero] using h
  · rw [toRat_nearest_eq hn hd hfinite]
    rcases lt_or_ge n 0 with hneg | hpos
    · rw [if_pos hneg]
      have hle : -r ≤ ((n.natAbs : ℚ) / d) := by
        rw [natAbs_div_of_neg hneg]
        linarith
      linarith [le_roundedRatio (by omega) hd hr.neg hle]
    · rw [if_neg (by omega)]
      exact roundedRatio_le (by omega) hd hr (by rwa [natAbs_div_of_nonneg hpos])

theorem Representable.abs_le {r : ℚ} (hr : Representable r) :
    |r| ≤ (2 ^ 53 - 1) * 2 ^ (971 : ℤ) := by
  obtain ⟨n, e, rfl, hn, -, he⟩ := hr
  have hbits : |(n : ℚ)| ≤ 2 ^ 53 - 1 := by
    have : |n| ≤ 2 ^ 53 - 1 := by
      have : |n| < 2 ^ 53 := hn
      omega
    exact_mod_cast this
  rw [abs_mul, abs_of_pos (by positivity : (0 : ℚ) < 2 ^ e)]
  gcongr
  exact one_le_two

/-- Representable numbers are clear of the overflow. -/
theorem Representable.abs_lt {r : ℚ} (hr : Representable r) :
    |r| < 2 ^ (1024 : ℤ) - 2 ^ (970 : ℤ) := by
  obtain ⟨u, hu, h970, h971, -, h1024⟩ := top_powers
  have hle := hr.abs_le
  rw [h971] at hle
  rw [h970, h1024]
  linarith only [hle, hu]

/-- All powers of two from `2^1024` on are beyond them. -/
theorem Representable.exponent_le {r : ℚ} (hr : Representable r) {n : ℕ} (h : 2 ^ n ≤ |r|) :
    n ≤ 1023 := by
  have hlt : (2 : ℚ) ^ (n : ℤ) < 2 ^ (1024 : ℤ) := by
    obtain ⟨u, hu, -, h971, -, h1024⟩ := top_powers
    have hle := h.trans hr.abs_le
    rw [h971] at hle
    rw [h1024, zpow_natCast]
    linarith only [hle, hu]
  have := (zpow_lt_zpow_iff_right₀ one_lt_two).mp hlt
  omega

/-- A representable quotient is its own rounding. -/
theorem toRat_nearest {n : ℤ} {d : ℕ} (hd : 0 < d) (hr : Representable ((n : ℚ) / d)) :
    (nearest n d).isFinite ∧ (nearest n d).toRat = n / d := by
  have hfinite : (nearest n d).isFinite := isFinite_nearest hd hr.abs_lt
  refine ⟨hfinite, le_antisymm ?_ ?_⟩
  · exact toRat_nearest_le hd hr le_rfl hfinite
  · exact le_toRat_nearest hd hr le_rfl hfinite

end Binary64

end BinaryPoint
