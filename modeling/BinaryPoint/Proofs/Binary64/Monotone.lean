import BinaryPoint.Proofs.Binary64.Nearest

/-! # Rounding keeps the order

A greater quotient is never rounded to a smaller double. On one grid this is a fact about
`nearestEven`, where ties need care: two quotients on either side of a middle could only be
exchanged if both were the middle, and then the same even neighbour is taken. On two grids the
power of two between them keeps the results apart.

* `roundedRatio_mono`, `toRat_nearest_mono`: the order of quotients and of their roundings;
* `isFinite_nearest_iff`: the overflow begins at `2^1024 - 2^970`, that number included.
-/

namespace BinaryPoint

/-! ## The nearest integer -/

/-- The nearest integer is half a unit away at most, and less than that if it is odd. -/
theorem nearestEven_spec {num den k : ℕ} (hden : 0 < den) (hk : nearestEven num den = k) :
    2 * (k * den) ≤ 2 * num + den ∧ 2 * num ≤ 2 * (k * den) + den ∧
      (k % 2 = 1 → 2 * (k * den) < 2 * num + den ∧ 2 * num < 2 * (k * den) + den) := by
  have hdiv := Nat.div_add_mod' num den
  have hmod := Nat.mod_lt num hden
  simp only [nearestEven] at hk
  generalize num / den = q at *
  generalize num % den = r at *
  have hstep : (q + 1) * den = q * den + den := Nat.succ_mul q den
  split at hk
  · subst hk
    omega
  · split at hk
    · subst hk
      omega
    · -- a tie goes to the even neighbour
      rcases Nat.mod_two_eq_zero_or_one q with heven | hodd
      · rw [heven, add_zero] at hk
        subst hk
        omega
      · rw [hodd] at hk
        subst hk
        omega

theorem nearestEven_mono {a b c d : ℕ} (hb : 0 < b) (hd : 0 < d) (h : a * d ≤ c * b) :
    nearestEven a b ≤ nearestEven c d := by
  obtain ⟨hlow, -, hlowOdd⟩ := nearestEven_spec hb (rfl : nearestEven a b = _)
  obtain ⟨-, hhigh, hhighOdd⟩ := nearestEven_spec hd (rfl : nearestEven c d = _)
  generalize nearestEven a b = k at *
  generalize nearestEven c d = m at *
  by_contra hlt
  obtain ⟨j, rfl⟩ : ∃ j, k = m + 1 + j := ⟨k - (m + 1), by omega⟩
  -- over the common denominator both quotients are the middle after `m`
  have hk : (2 * ((m + 1 + j) * b)) * d ≤ (2 * a + b) * d := Nat.mul_le_mul_right d hlow
  have hm : (2 * c) * b ≤ (2 * (m * d) + d) * b := Nat.mul_le_mul_right b hhigh
  have hunit : 0 < b * d := Nat.mul_pos hb hd
  have hj : j * (b * d) = 0 := by nlinarith
  obtain rfl : j = 0 := by
    rcases Nat.mul_eq_zero.mp hj with hj | hj
    · exact hj
    · omega
  rcases Nat.mod_two_eq_zero_or_one m with heven | hodd
  · have hstrict := (hlowOdd (by omega)).1
    have := Nat.mul_lt_mul_of_pos_right hstrict hd
    nlinarith
  · have hstrict := (hhighOdd hodd).2
    have := Nat.mul_lt_mul_of_pos_right hstrict hb
    nlinarith

namespace Binary64

/-! ## Quotients -/

variable {num den num' den' : ℕ}

/-- The place of the last bit does not fall as the quotient grows. -/
theorem lastPlace_mono (hnum : num ≠ 0) (hden : 0 < den) (hnum' : num' ≠ 0) (hden' : 0 < den')
    (h : (num : ℚ) / den ≤ num' / den') : lastPlace num den ≤ lastPlace num' den' := by
  have hbelow := (binaryExponent_spec hnum hden).1
  have habove := (binaryExponent_spec hnum' hden').2
  have hexponent : binaryExponent num den < binaryExponent num' den' + 1 :=
    (zpow_lt_zpow_iff_right₀ one_lt_two).mp (hbelow.trans_lt (h.trans_lt habove))
  rw [lastPlace, lastPlace]
  omega

theorem roundedRatio_mono (hnum : num ≠ 0) (hden : 0 < den) (hnum' : num' ≠ 0) (hden' : 0 < den')
    (h : (num : ℚ) / den ≤ num' / den') : roundedRatio num den ≤ roundedRatio num' den' := by
  have hdenQ : (0 : ℚ) < den := by exact_mod_cast hden
  have hdenQ' : (0 : ℚ) < den' := by exact_mod_cast hden'
  rcases (lastPlace_mono hnum hden hnum' hden' h).lt_or_eq with hlt | heq
  · -- the power of two at which the lower grid ends is on the higher one
    obtain ⟨hbits, -, -⟩ := lastPlace_spec hnum hden
    obtain ⟨-, hlast, hnormal⟩ := lastPlace_spec hnum' hden'
    have hlow : -1074 ≤ lastPlace num den := (lastPlace_spec hnum hden).2.1
    have hfull := hnormal.resolve_left (by omega)
    have hsig : significand num den ≤ 2 ^ 53 := by
      apply significand_le hden
      push_cast
      exact hbits.le
    have hsig' : 2 ^ 52 ≤ significand num' den' := by
      apply le_significand hden'
      push_cast
      exact hfull
    calc roundedRatio num den ≤ 2 ^ 53 * 2 ^ lastPlace num den := by
          rw [roundedRatio]
          gcongr
          exact_mod_cast hsig
      _ = 2 ^ 52 * 2 ^ (lastPlace num den + 1) := by rw [zpow_add_one₀ two_ne_zero]; ring
      _ ≤ 2 ^ 52 * 2 ^ lastPlace num' den' := by
          gcongr
          · exact one_le_two
          · omega
      _ ≤ roundedRatio num' den' := by
          rw [roundedRatio]
          gcongr
          exact_mod_cast hsig'
  · -- on one grid the nearest integers are in order
    have hcross : num * den' ≤ num' * den := by
      rw [div_le_div_iff₀ hdenQ hdenQ'] at h
      exact_mod_cast h
    have hsig : significand num den ≤ significand num' den' := by
      rw [significand, significand, heq]
      apply nearestEven_mono (by positivity) (by positivity)
      generalize (2 ^ (-lastPlace num' den').toNat : ℕ) = up
      generalize (2 ^ (lastPlace num' den').toNat : ℕ) = down
      calc num * up * (den' * down) = num * den' * (up * down) := by ring
        _ ≤ num' * den * (up * down) := Nat.mul_le_mul_right _ hcross
        _ = num' * up * (den * down) := by ring
    rw [roundedRatio, roundedRatio, heq]
    gcongr

/-! ## Quotients with a sign -/

variable {n n' : ℤ} {d d' : ℕ}

theorem toRat_nearest_mono (hd : 0 < d) (hd' : 0 < d') (hfinite : (nearest n d).isFinite)
    (hfinite' : (nearest n' d').isFinite) (h : (n : ℚ) / d ≤ n' / d') :
    (nearest n d).toRat ≤ (nearest n' d').toRat := by
  have hzero : Representable 0 := by simpa using representable_toRat (zero false)
  have hdQ : (0 : ℚ) < d := by exact_mod_cast hd
  have hdQ' : (0 : ℚ) < d' := by exact_mod_cast hd'
  rcases lt_trichotomy n 0 with hn | rfl | hn
  · rcases lt_or_ge n' 0 with hn' | hn'
    · -- both are below zero, where the order of the magnitudes is the other one
      rw [toRat_nearest_eq hn.ne hd hfinite, toRat_nearest_eq hn'.ne hd' hfinite', if_pos hn,
        if_pos hn', neg_le_neg_iff]
      apply roundedRatio_mono (by omega) hd' (by omega) hd
      rw [natAbs_div_of_neg hn, natAbs_div_of_neg hn']
      exact neg_le_neg h
    · -- only the first is below zero, and neither rounding passes zero
      have hbelow : (n : ℚ) / d ≤ 0 :=
        div_nonpos_of_nonpos_of_nonneg (by exact_mod_cast hn.le) hdQ.le
      have habove : (0 : ℚ) ≤ n' / d' := div_nonneg (by exact_mod_cast hn') hdQ'.le
      exact (toRat_nearest_le hd hzero hbelow hfinite).trans
        (le_toRat_nearest hd' hzero habove hfinite')
  · -- the first is zero
    rw [Int.cast_zero, zero_div] at h
    rw [nearest_zero, toRat_zero]
    exact le_toRat_nearest hd' hzero h hfinite'
  · -- both are above zero
    have hn' : 0 < n' := by
      have habove : (0 : ℚ) < n' / d' := (div_pos (by exact_mod_cast hn) hdQ).trans_le h
      exact_mod_cast (div_pos_iff_of_pos_right hdQ').mp habove
    rw [toRat_nearest_eq hn.ne' hd hfinite, toRat_nearest_eq hn'.ne' hd' hfinite',
      if_neg (by omega), if_neg (by omega)]
    apply roundedRatio_mono (by omega) hd (by omega) hd'
    rw [natAbs_div_of_nonneg hn.le, natAbs_div_of_nonneg hn'.le]
    exact h

/-! ## Overflow -/

/-- The least magnitude that has no nearest finite double. -/
def overflow : ℚ := 2 ^ (1024 : ℤ) - 2 ^ (970 : ℤ)

/-- The middle between the greatest double and the next step is a tie, and goes up. -/
theorem exists_middle :
    ∃ m : ℕ, (m : ℚ) = overflow ∧ roundedRatio m 1 = 2 ^ (1024 : ℤ) := by
  obtain ⟨u, -, h970, h971, -, h1024⟩ := top_powers
  have hplace : lastPlace ((2 ^ 54 - 1) * 2 ^ 970) 1 = 971 := by decide +kernel
  have hsig : significand ((2 ^ 54 - 1) * 2 ^ 970) 1 = 2 ^ 53 := by decide +kernel
  refine ⟨(2 ^ 54 - 1) * 2 ^ 970, ?_, ?_⟩
  · have hpow : ((2 ^ 970 : ℕ) : ℚ) = u := by
      rw [← h970, Nat.cast_pow, Nat.cast_ofNat]
      exact (zpow_natCast 2 970).symm
    rw [Nat.cast_mul, hpow, overflow, h970, h1024]
    push_cast
    ring
  · rw [roundedRatio, hplace, hsig, h971, h1024]
    push_cast
    ring

/-- A quotient has a nearest finite double just if its magnitude is below that. -/
theorem isFinite_nearest_iff (hd : 0 < d) :
    (nearest n d).isFinite ↔ |(n : ℚ) / d| < overflow := by
  refine ⟨fun hfinite => ?_, isFinite_nearest hd⟩
  by_contra hlarge
  -- from the middle on the rounding is that of the middle at least, which overflows
  obtain ⟨m, hm, hmiddle⟩ := exists_middle
  obtain ⟨u, hu, h970, -, -, h1024⟩ := top_powers
  have hpos : (0 : ℚ) < m := by
    rw [hm, overflow, h970, h1024]
    linarith only [hu]
  have habs : |(n : ℚ) / d| = (n.natAbs : ℚ) / d := by
    rw [abs_div, Nat.abs_cast, Nat.cast_natAbs, Int.cast_abs]
  rw [not_lt, habs, ← hm] at hlarge
  have hn : n.natAbs ≠ 0 := by
    intro hzero
    rw [hzero, Nat.cast_zero, zero_div] at hlarge
    exact absurd hpos (not_lt.mpr hlarge)
  have hmono : roundedRatio m 1 ≤ roundedRatio n.natAbs d :=
    roundedRatio_mono (by exact_mod_cast hpos.ne') one_pos hn hd (by simpa using hlarge)
  rw [nearest, isFinite_ofRatio_iff _ hn hd] at hfinite
  rw [hmiddle] at hmono
  exact absurd hfinite (not_lt.mpr hmono)

end Binary64

end BinaryPoint
