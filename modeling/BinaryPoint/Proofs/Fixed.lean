import BinaryPoint.Proofs.Binary64.Nearest
import BinaryPoint.Proofs.Range

/-! # Values and their doubles

The double that stands for a value is finite and in the range of the value's format
(`toReal_bounds`), but a value of a wide format need not be a double. One that was
rounded from a double is, and so is one that was rounded from such a value
(`representable_halfUp`): rounding either changes nothing or leaves few enough bits.
For these values the double that stands for them is exact (`toReal_exact`), and since
both ways of rounding a value to another format depend on its number only, they agree
(`reformat_eq_bind`).
-/

namespace BinaryPoint

open Binary64

/-- A representable number stays one when it is rounded to a fractional width. A number
with no more fractional bits is not changed; of the others 53 bits are left at most, and
they are rounded to an integer. -/
theorem representable_halfUp {q : ℚ} (hq : Representable q) (bits : ℕ) :
    Representable (halfUp q bits / 2 ^ bits) := by
  obtain ⟨n, e, rfl, hn, hlow, hhigh⟩ := hq
  have hsplit : (n : ℚ) * 2 ^ e * 2 ^ bits = n * 2 ^ (e + bits) := by
    rw [zpow_add₀ two_ne_zero, zpow_natCast, mul_assoc]
  rcases le_or_gt 0 (e + bits) with hwide | hnarrow
  · -- no bit is right of the last place
    have hexact : (n : ℚ) * 2 ^ e * 2 ^ bits = ((n * 2 ^ (e + bits).toNat : ℤ) : ℚ) := by
      rw [hsplit]
      push_cast
      rw [← zpow_natCast, Int.toNat_of_nonneg hwide]
    rw [halfUp_of_eq hexact, ← hexact, mul_div_cancel_right₀ _ (by positivity)]
    exact ⟨n, e, rfl, hn, hlow, hhigh⟩
  · -- the scaled number is at most `2^53`, and so is its rounding
    have hsmall : |(n : ℚ) * 2 ^ e * 2 ^ bits| ≤ 2 ^ 53 := by
      have hnQ : |(n : ℚ)| ≤ 2 ^ 53 := by exact_mod_cast hn.le
      have hpow : (2 : ℚ) ^ (e + bits) ≤ 1 := zpow_le_one_of_nonpos₀ one_le_two hnarrow.le
      rw [hsplit, abs_mul, abs_of_pos (by positivity : (0 : ℚ) < 2 ^ (e + (bits : ℤ)))]
      calc |(n : ℚ)| * 2 ^ (e + (bits : ℤ)) ≤ |(n : ℚ)| * 1 := by gcongr
        _ ≤ 2 ^ 53 := by linarith
    have hbits : |halfUp ((n : ℚ) * 2 ^ e) bits| ≤ 2 ^ precision :=
      abs_halfUp_le (by exact_mod_cast hsmall)
    have hscaled : (halfUp ((n : ℚ) * 2 ^ e) bits : ℚ) / 2 ^ bits =
        halfUp ((n : ℚ) * 2 ^ e) bits * 2 ^ (-(bits : ℤ)) := by
      rw [zpow_neg, zpow_natCast, div_eq_mul_inv]
    rw [hscaled]
    exact representable_mul_zpow hbits (by omega) (by omega)

namespace Format

variable {d : Format}

theorem representable_greatest (hd : d.integerBits < 1024) :
    Representable (2 ^ d.integerBits) := by
  rw [← zpow_natCast]
  exact representable_two_zpow (by omega) (by omega)

/-- The numbers in the range of a format that has a type are clear of the overflow. -/
theorem Covers.abs_lt {q : ℚ} (h : d.Covers q) (hd : d.integerBits < 1024) :
    |q| < 2 ^ (1024 : ℤ) - 2 ^ (970 : ℤ) :=
  calc |q| ≤ 2 ^ d.integerBits := abs_le.mpr ⟨d.neg_le_lowest.trans h.1, h.2⟩
    _ ≤ |2 ^ d.integerBits| := le_abs_self _
    _ < 2 ^ (1024 : ℤ) - 2 ^ (970 : ℤ) := (representable_greatest hd).abs_lt

end Format

namespace Fixed

theorem toRat_eq_div (v : Fixed) :
    v.toRat = (v.raw : ℚ) / ((2 ^ v.format.fractionalBits : ℕ) : ℚ) := by
  rw [toRat_eq]
  push_cast
  rfl

/-- The double of a value that is one is the value itself. -/
theorem toReal_exact {v : Fixed} (h : Representable v.toRat) :
    v.toReal.isFinite ∧ v.toReal.toRat = v.toRat := by
  rw [toRat_eq_div] at h ⊢
  exact toRat_nearest (by positivity) h

/-- The double of a value is finite and in the range of its format too: the bounds of the range
are doubles themselves, and rounding does not go beyond them. -/
theorem toReal_bounds (v : Fixed) :
    v.toReal.isFinite ∧ v.format.lowest ≤ v.toReal.toRat ∧
      v.toReal.toRat ≤ 2 ^ v.format.integerBits := by
  have hmost := Format.representable_greatest v.type.bounded
  have hleast : Representable v.format.lowest := by
    rw [Format.lowest]
    split
    · exact hmost.neg
    · simpa using representable_toRat (zero false)
  have hsize := v.covers_toRat.abs_lt v.type.bounded
  obtain ⟨hlow, hhigh⟩ := v.covers_toRat
  rw [toRat_eq_div] at hlow hhigh hsize
  have hfinite := isFinite_nearest (by positivity) hsize
  exact ⟨hfinite, le_toRat_nearest (by positivity) hleast hlow hfinite,
    toRat_nearest_le (by positivity) hmost hhigh hfinite⟩

/-- Shifting a scaled integer rounds the number that it stands for. -/
theorem shiftRound_raw (v : Fixed) (bits : ℕ) :
    shiftRound v.raw ((v.format.fractionalBits : ℤ) - bits) = halfUp v.toRat bits := by
  rw [shiftRound_eq_floor, halfUp, toRat_eq, neg_sub, zpow_sub₀ two_ne_zero, zpow_natCast,
    zpow_natCast]
  congr 2
  ring

/-- A rounding of a representable number is a double. -/
theorem Rounds.representable {v : Fixed} {f : Format} {q : ℚ} (h : v.Rounds f q)
    (hq : Representable q) : Representable v.toRat := by
  obtain ⟨rfl, hraw⟩ := h
  rw [toRat_eq, hraw]
  exact representable_halfUp hq _

end Fixed

namespace Binder

/-- On a reachable cache a reformatted value is the rounding of the value's number. -/
theorem ensures_reformat (b : Binder) (v : Fixed) (f : Format) :
    Binding.Ensures Reached (b.reformat v f) (·.Rounds f v.toRat) := by
  apply Binding.Ensures.bind (ensures_typeFor b f)
  rintro t rfl
  apply Binding.Ensures.of
  intro w hw
  rw [Fixed.shiftRound_raw] at hw
  exact Fixed.rounds_of_ofRaw hw

/-- Both ways of rounding a value to another format agree, the shift of its scaled integer and
the rounding of its double, as long as that double is the value itself. -/
theorem reformat_eq_bind {v : Fixed} (h : Representable v.toRat) (b : Binder) (d : Descriptor) :
    b.reformat v d = b.bind d (unbind v) := by
  obtain ⟨hfinite, hvalue⟩ := Fixed.toReal_exact h
  have hround (t : ValueType) :
      Fixed.ofRaw t (shiftRound v.raw ((v.format.fractionalBits : ℤ) - t.format.fractionalBits)) =
        roundTo t v.toReal := by
    rw [Fixed.shiftRound_raw, roundTo_of_isFinite hfinite, hvalue]
  simp only [reformat, bind, bindNumber, unbind, hround]
  rfl

end Binder

end BinaryPoint
