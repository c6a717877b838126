import BinaryPoint.Proofs.Binary64.LogDigits
import BinaryPoint.Proofs.Inference.Faults
import BinaryPoint.Proofs.Inference.Threshold

/-! # Integer bits and magnitudes

A sample that is not negative asks for the logarithm of its magnitude, and a negative one for that
of one more. So the integer bits grow with what the samples reach in this sense, and with their
magnitude only as long as the signs do not get in the way: a negative sample may ask for a bit more
than a positive one of the same magnitude, and never for two.

* `integerWidth_le_of_reach`: a sample that reaches as far asks for as much;
* `integerWidth_le_add_one`: a sample of no smaller magnitude asks for at most one bit less;
* `integerBits_of_magnitude_le`: the integer bits of two inferred formats.
-/

namespace BinaryPoint

namespace Binary64

/-- How far the range of a format has to reach for a sample. -/
def reach (x : Binary64) : ℚ := if x.toRat < 0 then 1 - x.toRat else x.toRat

variable {x y : Binary64}

theorem reach_of_neg (h : x.toRat < 0) : x.reach = -x.toRat + 1 := by
  rw [reach, if_pos h]
  ring

theorem reach_of_nonneg (h : 0 ≤ x.toRat) : x.reach = x.toRat := by
  rw [reach, if_neg (not_lt.mpr h)]

/-! ## One more -/

/-- Adding one keeps the order of doubles that are not negative. -/
theorem add_one_mono (hx : x.isFinite) (hy : y.isFinite) (hpos : 0 ≤ x.toRat)
    (h : x.toRat ≤ y.toRat) : (x + one).toRat ≤ (y + one).toRat := by
  have hpos' := hpos.trans h
  have hfinite := isFinite_add_one hx hpos
  have hfinite' := isFinite_add_one hy hpos'
  obtain ⟨n, d, hd, hadd, hvalue⟩ := add_one_eq_nearest hx hpos
  obtain ⟨n', d', hd', hadd', hvalue'⟩ := add_one_eq_nearest hy hpos'
  rw [hadd] at hfinite ⊢
  rw [hadd'] at hfinite' ⊢
  refine toRat_nearest_mono hd hd' hfinite hfinite' ?_
  rw [hvalue, hvalue']
  linarith

/-! ## One sample -/

/-- Zero asks for no bits. -/
theorem integerWidth_of_zero (hx : x.isFinite) (h : x.toRat = 0) : x.integerWidth.toRat ≤ 0 := by
  obtain ⟨hfinite, hone⟩ := one_le_neg_add_one hx h.le
  have hle : (-x + one).toRat ≤ 2 ^ (0 : ℤ) := by
    apply toRat_add_one_le (by rwa [isFinite_neg]) (by rw [toRat_neg, h, neg_zero])
      (representable_two_zpow (by norm_num) (by norm_num))
    rw [toRat_neg, h, neg_zero, zero_add, zpow_zero]
  rw [integerWidth_of_nonpos hx h.le]
  exact_mod_cast toRat_log2_le hfinite (by linarith) hle

/-- A sample asks for no more than one that reaches as far, or for nothing. -/
theorem integerWidth_le_of_reach (hx : x.isFinite) (hy : y.isFinite) (h : x.reach ≤ y.reach) :
    x.integerWidth.toRat ≤ max 0 y.integerWidth.toRat := by
  have hnegx : (-x).isFinite := by rwa [isFinite_neg]
  have hnegy : (-y).isFinite := by rwa [isFinite_neg]
  rcases lt_trichotomy x.toRat 0 with hxneg | hxzero | hxpos
  · -- a negative sample asks for the logarithm of its magnitude and one
    obtain ⟨hfinite, hone⟩ := one_le_neg_add_one hx hxneg.le
    rw [reach_of_neg hxneg] at h
    have hxabs : 0 ≤ (-x).toRat := by
      rw [toRat_neg]
      linarith
    rw [integerWidth_of_nonpos hx hxneg.le]
    apply le_max_of_le_right
    rcases lt_or_ge y.toRat 0 with hyneg | hynonneg
    · obtain ⟨hfinite', -⟩ := one_le_neg_add_one hy hyneg.le
      rw [reach_of_neg hyneg] at h
      rw [integerWidth_of_nonpos hy hyneg.le]
      apply log2_mono hfinite hfinite' (by linarith)
      apply add_one_mono hnegx hnegy hxabs
      rw [toRat_neg, toRat_neg]
      linarith
    · -- a positive one that reaches as far is itself no less than that sum
      rw [reach_of_nonneg hynonneg] at h
      rw [integerWidth_of_pos hy (by linarith)]
      apply log2_mono hfinite hy (by linarith)
      apply toRat_add_one_le hnegx hxabs (representable_toRat y)
      rwa [toRat_neg]
  · exact (integerWidth_of_zero hx hxzero).trans (le_max_left _ _)
  · -- a positive sample asks for the logarithm of itself
    rw [reach_of_nonneg hxpos.le] at h
    rw [integerWidth_of_pos hx hxpos]
    apply le_max_of_le_right
    rcases lt_or_ge y.toRat 0 with hyneg | hynonneg
    · obtain ⟨hfinite', -⟩ := one_le_neg_add_one hy hyneg.le
      rw [reach_of_neg hyneg] at h
      rw [integerWidth_of_nonpos hy hyneg.le]
      apply log2_mono hx hfinite' hxpos
      apply le_toRat_add_one hnegy (by rw [toRat_neg]; linarith) (representable_toRat x)
      rwa [toRat_neg]
    · rw [reach_of_nonneg hynonneg] at h
      rw [integerWidth_of_pos hy (by linarith)]
      exact log2_mono hx hy hxpos h

/-- Magnitudes tell what samples reach, unless a negative one is compared with a positive one. -/
theorem reach_le_of_abs_le (h : |x.toRat| ≤ |y.toRat|) (hsigns : 0 ≤ x.toRat ∨ y.toRat < 0) :
    x.reach ≤ y.reach := by
  rcases lt_or_ge y.toRat 0 with hyneg | hynonneg
  · rw [abs_of_neg hyneg] at h
    rw [reach_of_neg hyneg]
    rcases lt_or_ge x.toRat 0 with hxneg | hxnonneg
    · rw [abs_of_neg hxneg] at h
      rw [reach_of_neg hxneg]
      linarith
    · rw [abs_of_nonneg hxnonneg] at h
      rw [reach_of_nonneg hxnonneg]
      linarith
  · have hxnonneg := hsigns.resolve_right (not_lt.mpr hynonneg)
    rwa [reach_of_nonneg hxnonneg, reach_of_nonneg hynonneg, ← abs_of_nonneg hxnonneg,
      ← abs_of_nonneg hynonneg]

/-- A positive sample whose logarithm is not above `n` is far enough below the next power of two
that one more does not pass it. -/
theorem add_one_le_of_log2_le (hy : y.isFinite) {n : ℕ} (h : y.log2.toRat ≤ n) :
    y.toRat + 1 ≤ 2 ^ (n + 1) := by
  cases n with
  | zero =>
    -- up to one the logarithm is not positive
    have hone : y.toRat ≤ 1 := by
      by_contra hgt
      have := log2_pos hy (not_le.mp hgt)
      rw [Nat.cast_zero] at h
      linarith
    rw [zero_add, pow_one]
    linarith
  | succ n =>
    -- from half way to the next power on it would be half a unit more
    have hhalf : y.toRat < 3 / 2 * 2 ^ (n + 1) := by
      by_contra hge
      have := add_half_le_log2 hy (not_lt.mp hge)
      linarith
    have htwo : (2 : ℚ) ≤ 2 ^ (n + 1) := by
      rw [pow_succ]
      linarith [(one_le_pow₀ one_le_two : (1 : ℚ) ≤ 2 ^ n)]
    rw [pow_succ _ (n + 1)]
    linarith

/-- A sample of no smaller magnitude asks for at most one bit less. -/
theorem integerWidth_le_add_one (hx : x.isFinite) (hy : y.isFinite)
    (h : |x.toRat| ≤ |y.toRat|) {n : ℕ} (hn : y.integerWidth.toRat ≤ n) :
    x.integerWidth.toRat ≤ n + 1 := by
  have hzero : (0 : ℚ) ≤ n := Nat.cast_nonneg n
  by_cases hsigns : 0 ≤ x.toRat ∨ y.toRat < 0
  · have hwidth := integerWidth_le_of_reach hx hy (reach_le_of_abs_le h hsigns)
    exact hwidth.trans ((max_le hzero hn).trans (by linarith))
  · -- a negative sample against a positive one
    obtain ⟨hxneg, hynonneg⟩ := not_or.mp hsigns
    rw [not_le] at hxneg
    rw [not_lt] at hynonneg
    rw [abs_of_neg hxneg, abs_of_nonneg hynonneg] at h
    have hypos : 0 < y.toRat := by linarith
    rw [integerWidth_of_pos hy hypos] at hn
    -- one more than the positive sample stays within the next power of two
    have hnext := add_one_le_of_log2_le hy hn
    rcases le_or_gt 1023 n with hlarge | hsmall
    · -- no sample asks for more than 1024 bits
      have hlargeQ : (1023 : ℚ) ≤ n := by exact_mod_cast hlarge
      linarith [integerWidth_le hx]
    · -- the power is a double, which rounding the sum does not pass
      obtain ⟨hfinite, hone⟩ := one_le_neg_add_one hx hxneg.le
      have hle : (-x + one).toRat ≤ 2 ^ ((n + 1 : ℕ) : ℤ) := by
        apply toRat_add_one_le (by rwa [isFinite_neg]) (by rw [toRat_neg]; linarith)
          (representable_two_zpow (by omega) (by omega))
        rw [toRat_neg, zpow_natCast]
        linarith
      rw [integerWidth_of_nonpos hx hxneg.le]
      exact_mod_cast toRat_log2_le hfinite (by linarith) hle

end Binary64

namespace Inference

variable {xs ys : List Binary64} {tolerance tolerance' : Binary64} {bound bound' : Datum}
  {d e : Format}

/-! ## All samples -/

/-- The greatest of what a measure gives for the samples. -/
def greatestOf (measure : Binary64 → ℚ) (xs : List Binary64) : ℚ := (xs.map measure).foldr max 0

theorem le_greatestOf {measure : Binary64 → ℚ} {x : Binary64} (hx : x ∈ xs) :
    measure x ≤ greatestOf measure xs := by
  induction hx with
  | head xs => exact le_max_left _ _
  | tail y _ ih => exact ih.trans (le_max_right _ _)

/-- The greatest is that of one of the samples. -/
theorem exists_greatestOf {measure : Binary64 → ℚ} (hmeasure : ∀ x, 0 ≤ measure x)
    (hne : xs ≠ []) : ∃ x ∈ xs, greatestOf measure xs = measure x := by
  induction xs with
  | nil => exact absurd rfl hne
  | cons x xs ih =>
    by_cases hxs : xs = []
    · subst hxs
      exact ⟨x, by simp, max_eq_left (hmeasure x)⟩
    · obtain ⟨y, hy, hgreatest⟩ := ih hxs
      rcases le_total (measure y) (measure x) with hle | hle
      · exact ⟨x, by simp, max_eq_left (hgreatest.trans_le hle)⟩
      · exact ⟨y, List.mem_cons_of_mem x hy, (max_eq_right (hle.trans_eq hgreatest.symm)).trans
          hgreatest⟩

/-- The greatest magnitude of the samples. -/
def magnitude (xs : List Binary64) : ℚ := greatestOf (|·.toRat|) xs

/-- The farthest reach of the samples. -/
def farthest (xs : List Binary64) : ℚ := greatestOf Binary64.reach xs

theorem reach_nonneg (x : Binary64) : 0 ≤ x.reach := by
  rcases lt_or_ge x.toRat 0 with hneg | hnonneg
  · rw [Binary64.reach_of_neg hneg]
    linarith
  · rwa [Binary64.reach_of_nonneg hnonneg]

/-- Samples that reach no farther ask for no more integer bits. -/
theorem integerBits_le_of_farthest_le (hxs : xs ≠ []) (hys : ys ≠ [])
    (hx : ∀ x ∈ xs, x.isFinite) (hy : ∀ y ∈ ys, y.isFinite) (h : farthest xs ≤ farthest ys) :
    integerBits xs ≤ integerBits ys := by
  rw [integerBits_le_iff hxs hx]
  intro x hmem
  obtain ⟨y, hmemy, hfarthest⟩ := exists_greatestOf reach_nonneg hys
  have hreach : x.reach ≤ y.reach := (le_greatestOf hmem).trans (h.trans_eq hfarthest)
  exact (Binary64.integerWidth_le_of_reach (hx x hmem) (hy y hmemy) hreach).trans
    (max_le (Nat.cast_nonneg _) (integerWidth_le_integerBits hy hmemy))

/-- **Integer bits and magnitudes.** Of two inferred formats, whatever the tolerances and the
bounds, the one whose samples reach no farther has no more integer bits. If the samples are of no
greater magnitude, it has at most one more; it has none more just if the other one has enough for
all negative samples, and so if there are none. -/
theorem integerBits_of_magnitude_le (hx : infer xs tolerance bound = .ok d)
    (hy : infer ys tolerance' bound' = .ok e) :
    (farthest xs ≤ farthest ys → d.integerBits ≤ e.integerBits) ∧
    (magnitude xs ≤ magnitude ys →
      d.integerBits ≤ e.integerBits + 1 ∧
      (¬ d.signed → d.integerBits ≤ e.integerBits) ∧
      (d.integerBits ≤ e.integerBits ↔
        ∀ x ∈ xs, x.toRat < 0 → x.integerWidth.toRat ≤ e.integerBits)) := by
  have hxs := inferred_of_infer hx
  have hys := inferred_of_infer hy
  rw [hxs.integerBits_eq, hys.integerBits_eq, hxs.signed_iff]
  refine ⟨?_, fun h => ?_⟩
  · exact integerBits_le_of_farthest_le hxs.nonempty hys.nonempty hxs.finite hys.finite
  · -- the sample of the second list whose magnitude none of the first exceeds
    obtain ⟨y, hmemy, hmagnitude⟩ : ∃ y ∈ ys, magnitude ys = |y.toRat| :=
      exists_greatestOf (fun x => abs_nonneg x.toRat) hys.nonempty
    have habs : ∀ x ∈ xs, |x.toRat| ≤ |y.toRat| :=
      fun x hmem => (le_greatestOf hmem).trans (h.trans_eq hmagnitude)
    have hy : y.integerWidth.toRat ≤ integerBits ys := integerWidth_le_integerBits hys.finite hmemy
    -- samples that are not negative ask for no more than that one
    have hnonneg : ∀ x ∈ xs, 0 ≤ x.toRat → x.integerWidth.toRat ≤ integerBits ys := by
      intro x hmem hpos
      have hreach := Binary64.reach_le_of_abs_le (habs x hmem) (.inl hpos)
      exact (Binary64.integerWidth_le_of_reach (hxs.finite x hmem) (hys.finite y hmemy) hreach).trans
        (max_le (Nat.cast_nonneg _) hy)
    -- so only negative ones can ask for more, and that by one bit
    have hiff : integerBits xs ≤ integerBits ys ↔
        ∀ x ∈ xs, x.toRat < 0 → x.integerWidth.toRat ≤ integerBits ys := by
      rw [integerBits_le_iff hxs.nonempty hxs.finite]
      constructor
      · exact fun hall x hmem _ => hall x hmem
      · intro hneg x hmem
        rcases lt_or_ge x.toRat 0 with hx | hx
        · exact hneg x hmem hx
        · exact hnonneg x hmem hx
    refine ⟨?_, fun hunsigned => ?_, hiff⟩
    · rw [integerBits_le_iff hxs.nonempty hxs.finite]
      intro x hmem
      exact_mod_cast Binary64.integerWidth_le_add_one (hxs.finite x hmem) (hys.finite y hmemy)
        (habs x hmem) hy
    · exact hiff.mpr fun x hmem hneg => absurd ⟨x, hmem, hneg⟩ hunsigned

/-- Minus one and a half asks for two bits and one and three quarters for one, although its
magnitude is the greater one: what is to be reached is two and a half. -/
theorem integerBits_of_magnitude_le_signs :
    let xs := [Binary64.ofRatio true 3 2]
    let ys := [Binary64.ofRatio false 7 4]
    let tolerance := Binary64.ofRatio false 3 10
    infer xs tolerance (.int 52) = .ok ⟨true, 2, 1⟩ ∧
      infer ys tolerance (.int 52) = .ok ⟨false, 1, 0⟩ ∧
      magnitude xs ≤ magnitude ys ∧ (2 : ℕ) ≤ 1 + 1 ∧
      farthest ys ≤ farthest xs ∧ (1 : ℕ) ≤ 2 := by
  intro xs ys tolerance
  have hx : infer xs tolerance (.int 52) = .ok ⟨true, 2, 1⟩ :=
    eq_ok_of_toOption (by decide +kernel)
  have hy : infer ys tolerance (.int 52) = .ok ⟨false, 1, 0⟩ :=
    eq_ok_of_toOption (by decide +kernel)
  have hmagnitude : magnitude xs ≤ magnitude ys := by decide +kernel
  have hfarthest : farthest ys ≤ farthest xs := by decide +kernel
  exact ⟨hx, hy, hmagnitude, ((integerBits_of_magnitude_le hx hy).2 hmagnitude).1, hfarthest,
    (integerBits_of_magnitude_le hy hx).1 hfarthest⟩

/-- Integer bits do not grow with the greatest magnitude of the samples alone. -/
theorem not_forall_integerBits_mono :
    ¬ ∀ (xs ys : List Binary64) (tolerance tolerance' : Binary64) (bound bound' : Datum)
      (d e : Format), infer xs tolerance bound = .ok d → infer ys tolerance' bound' = .ok e →
        magnitude xs ≤ magnitude ys → d.integerBits ≤ e.integerBits := by
  intro hall
  have hx : infer [.ofRatio true 3 2] (.ofRatio false 3 10) (.int 52) = .ok ⟨true, 2, 1⟩ :=
    eq_ok_of_toOption (by decide +kernel)
  have hy : infer [.ofRatio false 7 4] (.ofRatio false 3 10) (.int 52) = .ok ⟨false, 1, 0⟩ :=
    eq_ok_of_toOption (by decide +kernel)
  have hmagnitude : magnitude [.ofRatio true 3 2] ≤ magnitude [.ofRatio false 7 4] := by
    decide +kernel
  exact absurd (hall _ _ _ _ _ _ _ _ hx hy hmagnitude) (by decide)

end Inference

end BinaryPoint
