import BinaryPoint.Inference
import BinaryPoint.Proofs.Binary64.Logarithm

/-! # The integer width that inference asks for

`integerBits` is the greatest of the samples' rounded logarithms, rounded up to a
natural number: the least width that none of them exceeds (`integerBits_le_iff`).
A rounded logarithm is never below an integer that the exact one reaches
(`natCast_le_integerWidth`), so a sample whose magnitude reaches `2^n` asks for at
least `n` bits. Nothing more can be said: the logarithm of a sample just above `2^n`
may be rounded down to `n` itself.
-/

namespace BinaryPoint

namespace Binary64

/-! ## One sample -/

@[simp] theorem toRat_one : one.toRat = 1 := by
  simp [one, toRat]
  norm_num

/-- One more than a double that is not negative is rounded once. -/
theorem add_one_eq_nearest {x : Binary64} (hx : x.isFinite) (hpos : 0 ≤ x.toRat) :
    ∃ (n : ℤ) (d : ℕ), 0 < d ∧ x + one = nearest n d ∧ (n : ℚ) / d = x.toRat + 1 := by
  have hsum : x.toRat + one.toRat ≠ 0 := by
    rw [toRat_one]
    linarith
  rw [← toRat_one]
  exact add_eq_nearest hx rfl hsum

/-- A double that is not negative stays finite when one is added. -/
theorem isFinite_add_one {x : Binary64} (hx : x.isFinite) (hpos : 0 ≤ x.toRat) :
    (x + one).isFinite := by
  obtain ⟨n, d, hd, hadd, hvalue⟩ := add_one_eq_nearest hx hpos
  rw [hadd]
  apply isFinite_nearest hd
  rw [hvalue, abs_of_pos (by linarith)]
  obtain ⟨u, hu, h970, h971, -, h1024⟩ := top_powers
  have hle := (le_abs_self _).trans (representable_toRat x).abs_le
  have hunit : (1 : ℚ) < 2 ^ (970 : ℤ) := one_lt_zpow₀ one_lt_two (by norm_num)
  rw [h971] at hle
  rw [h970] at hunit
  rw [h970, h1024]
  linarith only [hle, hunit]

/-- Adding one to a double that is not negative does not pass a representable number. -/
theorem le_toRat_add_one {x : Binary64} (hx : x.isFinite) (hpos : 0 ≤ x.toRat) {r : ℚ}
    (hr : Representable r) (h : r ≤ x.toRat + 1) : r ≤ (x + one).toRat := by
  have hfinite := isFinite_add_one hx hpos
  obtain ⟨n, d, hd, hadd, hvalue⟩ := add_one_eq_nearest hx hpos
  rw [hadd] at hfinite ⊢
  exact le_toRat_nearest hd hr (hvalue ▸ h) hfinite

theorem toRat_add_one_le {x : Binary64} (hx : x.isFinite) (hpos : 0 ≤ x.toRat) {r : ℚ}
    (hr : Representable r) (h : x.toRat + 1 ≤ r) : (x + one).toRat ≤ r := by
  have hfinite := isFinite_add_one hx hpos
  obtain ⟨n, d, hd, hadd, hvalue⟩ := add_one_eq_nearest hx hpos
  rw [hadd] at hfinite ⊢
  exact toRat_nearest_le hd hr (hvalue ▸ h) hfinite

theorem integerWidth_of_pos {x : Binary64} (hx : x.isFinite) (hpos : 0 < x.toRat) :
    x.integerWidth = x.log2 := by
  rw [integerWidth, if_pos ((isPositive_iff hx).mpr hpos)]

theorem integerWidth_of_nonpos {x : Binary64} (hx : x.isFinite) (hneg : x.toRat ≤ 0) :
    x.integerWidth = (-x + one).log2 := by
  rw [integerWidth, if_neg]
  rw [isPositive_iff hx]
  exact not_lt.mpr hneg

/-- One minus a sample that is not positive is finite and at least one. -/
theorem one_le_neg_add_one {x : Binary64} (hx : x.isFinite) (hneg : x.toRat ≤ 0) :
    (-x + one).isFinite ∧ 1 ≤ (-x + one).toRat := by
  have hx' : (-x).isFinite := by rwa [isFinite_neg]
  have hpos : 0 ≤ (-x).toRat := by
    rw [toRat_neg]
    linarith
  refine ⟨isFinite_add_one hx' hpos, le_toRat_add_one hx' hpos ?_ (by linarith)⟩
  simpa using representable_two_zpow (e := 0) (by norm_num) (by norm_num)

theorem isFinite_integerWidth {x : Binary64} (hx : x.isFinite) : x.integerWidth.isFinite := by
  rcases lt_or_ge 0 x.toRat with hpos | hneg
  · rw [integerWidth_of_pos hx hpos]
    exact isFinite_log2 hx hpos
  · obtain ⟨hfinite, hone⟩ := one_le_neg_add_one hx hneg
    rw [integerWidth_of_nonpos hx hneg]
    exact isFinite_log2 hfinite (by linarith)

/-- A sample whose magnitude reaches `2^n` has a rounded logarithm of at least `n`. -/
theorem natCast_le_integerWidth {x : Binary64} (hx : x.isFinite) {n : ℕ}
    (h : (2 : ℚ) ^ n ≤ |x.toRat|) : (n : ℚ) ≤ x.integerWidth.toRat := by
  have hn : n ≤ 1023 := (representable_toRat x).exponent_le h
  rcases lt_or_ge 0 x.toRat with hpos | hneg
  · -- the logarithm is monotone, and exact at the power of two
    rw [integerWidth_of_pos hx hpos]
    rw [abs_of_pos hpos] at h
    exact_mod_cast le_toRat_log2 hx hpos (n := n) (by exact_mod_cast h)
  · obtain ⟨hfinite, hone⟩ := one_le_neg_add_one hx hneg
    rw [integerWidth_of_nonpos hx hneg]
    rw [abs_of_nonpos hneg] at h
    -- adding one does not bring a negative sample below the power
    have hsum : (2 : ℚ) ^ (n : ℤ) ≤ (-x + one).toRat := by
      apply le_toRat_add_one (by rwa [isFinite_neg]) (by rw [toRat_neg]; linarith)
        (representable_two_zpow (by omega) (by omega))
      rw [toRat_neg, zpow_natCast]
      linarith
    exact_mod_cast le_toRat_log2 hfinite (by linarith) hsum

end Binary64

namespace Inference

/-! ## All samples -/

/-- The fold keeps the greater of two doubles, so it ends with the greatest. -/
theorem foldl_greater {xs : List Binary64} {x : Binary64} (hx : x.isFinite)
    (hxs : ∀ y ∈ xs, y.isFinite) :
    xs.foldl (fun best y => if best.lt y then y else best) x ∈ x :: xs ∧
      ∀ y ∈ x :: xs, y.toRat ≤
        (xs.foldl (fun best y => if best.lt y then y else best) x).toRat := by
  induction xs generalizing x with
  | nil => simp
  | cons z zs ih =>
    have hz : z.isFinite := hxs z (by simp)
    have hzs : ∀ y ∈ zs, y.isFinite := fun y hy => hxs y (by simp [hy])
    rw [List.foldl_cons]
    by_cases hlt : x.lt z
    · -- the next double takes the place of the best one so far
      rw [if_pos hlt]
      obtain ⟨hmem, hmax⟩ := ih hz hzs
      have hxz := (Binary64.lt_iff_toRat hx hz).mp hlt
      refine ⟨List.mem_cons_of_mem x hmem, fun y hy => ?_⟩
      rcases List.mem_cons.mp hy with rfl | hy
      · exact hxz.le.trans (hmax z (by simp))
      · exact hmax y hy
    · -- the best one stays
      rw [if_neg hlt]
      obtain ⟨hmem, hmax⟩ := ih hx hzs
      have hzx : z.toRat ≤ x.toRat := by
        rw [Binary64.lt_iff_toRat hx hz] at hlt
        exact not_lt.mp hlt
      constructor
      · rcases List.mem_cons.mp hmem with h | h
        · rw [h]
          simp
        · simp [h]
      · intro y hy
        rcases List.mem_cons.mp hy with rfl | hy
        · exact hmax y (by simp)
        · rcases List.mem_cons.mp hy with rfl | hy
          · exact hzx.trans (hmax x (by simp))
          · exact hmax y (by simp [hy])

/-- The greatest of finite doubles is one of them and not below any of them. -/
theorem greatest_spec {xs : List Binary64} (hne : xs ≠ []) (hxs : ∀ y ∈ xs, y.isFinite) :
    greatest xs ∈ xs ∧ ∀ y ∈ xs, y.toRat ≤ (greatest xs).toRat := by
  cases xs with
  | nil => exact absurd rfl hne
  | cons x xs =>
    exact foldl_greater (hxs x (by simp)) (fun y hy => hxs y (by simp [hy]))

/-- The integer bits are the least natural number that no rounded logarithm exceeds. -/
theorem integerBits_le_iff {samples : List Binary64} (hne : samples ≠ [])
    (hfinite : ∀ x ∈ samples, x.isFinite) {n : ℕ} :
    integerBits samples ≤ n ↔ ∀ x ∈ samples, x.integerWidth.toRat ≤ n := by
  have hnonempty : samples.map Binary64.integerWidth ≠ [] := by simpa using hne
  have hwidths : ∀ y ∈ samples.map Binary64.integerWidth, y.isFinite := by
    simpa using fun x hx => Binary64.isFinite_integerWidth (hfinite x hx)
  obtain ⟨hmem, hmax⟩ := greatest_spec hnonempty hwidths
  -- the ceiling of the greatest logarithm, and zero if that is below
  have hceil : integerBits samples ≤ n ↔
      (greatest (samples.map Binary64.integerWidth)).toRat ≤ n := by
    rw [integerBits, Binary64.ceil_eq, Int.toNat_le, Int.ceil_le]
    simp
  rw [hceil]
  constructor
  · intro h x hx
    exact (hmax _ (List.mem_map_of_mem hx)).trans h
  · intro h
    obtain ⟨x, hx, hgreatest⟩ := List.mem_map.mp hmem
    rw [← hgreatest]
    exact h x hx

/-- Every sample's rounded logarithm is within the integer bits. -/
theorem integerWidth_le_integerBits {samples : List Binary64}
    (hfinite : ∀ x ∈ samples, x.isFinite) {x : Binary64} (hx : x ∈ samples) :
    x.integerWidth.toRat ≤ integerBits samples :=
  (integerBits_le_iff (List.ne_nil_of_mem hx) hfinite).mp le_rfl x hx

end Inference

end BinaryPoint
