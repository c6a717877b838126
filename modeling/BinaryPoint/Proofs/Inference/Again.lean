import BinaryPoint.Proofs.Fixed
import BinaryPoint.Proofs.Inference.Outcomes

/-! # Inference from what was rounded

Samples that were rounded to the width inferred for them have that width inferred once more. A
finer grid is not asked for, since they are on this one. A coarser one does not do: of two
neighbouring widths, a multiple of the finer step is a multiple of the coarser one, or as far
from its multiples as can be. So where a sample was too far from the coarser grid, what is nearer
to the sample than the tolerance is no nearer to that grid.

* `Inferred.of_near`: this for any numbers on the grid that are nearer than the tolerance;
* `inferFrom_rounded`: and so for the roundings themselves.
-/

namespace BinaryPoint

/-! ## Neighbouring widths -/

/-- An odd multiple of half a step is in the middle between two multiples of the step. -/
theorem le_halfUpError_of_odd {k : ℤ} (hk : Odd k) (bits : ℕ) :
    1 / 2 ^ (bits + 1) ≤ halfUpError ((k : ℚ) / 2 ^ (bits + 1)) bits := by
  have hstep : (0 : ℚ) < 2 ^ bits := by positivity
  have hhalf : (k : ℚ) / 2 ^ (bits + 1) * 2 ^ bits = k / 2 := by
    rw [pow_succ]
    field_simp
  have hunits := halfUpError_mul ((k : ℚ) / 2 ^ (bits + 1)) bits
  rw [hhalf] at hunits
  generalize halfUp ((k : ℚ) / 2 ^ (bits + 1)) bits = n at hunits
  -- twice the rounding is even, and so a whole unit away
  have hne : 2 * n - k ≠ 0 := by
    obtain ⟨m, rfl⟩ := hk
    omega
  have hunit : (1 : ℚ) ≤ |2 * (n : ℚ) - k| := by exact_mod_cast Int.one_le_abs hne
  have hdouble : |2 * (n : ℚ) - k| = 2 * |(n : ℚ) - k / 2| := by
    rw [← abs_two (α := ℚ), ← abs_mul, abs_two]
    congr 1
    ring
  generalize halfUpError ((k : ℚ) / 2 ^ (bits + 1)) bits = error at hunits ⊢
  rw [div_le_iff₀ (by positivity), pow_succ, ← mul_assoc, hunits]
  linarith

/-- Where a number is too far from a grid, so is each multiple of the half step that is nearer
to the number than that. -/
theorem le_halfUpError_of_near {q tolerance : ℚ} {k : ℤ} {bits : ℕ}
    (hnear : |(k : ℚ) / 2 ^ (bits + 1) - q| < tolerance) (hfar : tolerance ≤ halfUpError q bits) :
    tolerance ≤ halfUpError ((k : ℚ) / 2 ^ (bits + 1)) bits := by
  rcases Int.even_or_odd k with ⟨m, rfl⟩ | hodd
  · -- a multiple of the whole step is not that near
    have hgrid : ((m + m : ℤ) : ℚ) / 2 ^ (bits + 1) = m / 2 ^ bits := by
      rw [pow_succ]
      push_cast
      field_simp
      ring
    rw [hgrid] at hnear
    exact absurd (hfar.trans (halfUp_nearest q bits m)) (not_le.mpr hnear)
  · calc tolerance ≤ halfUpError q bits := hfar
      _ ≤ 1 / 2 ^ (bits + 1) := halfUpError_le q bits
      _ ≤ halfUpError ((k : ℚ) / 2 ^ (bits + 1)) bits := le_halfUpError_of_odd hodd bits

namespace Binary64

/-- The rounding of a double to a fractional width, as a double. -/
def roundedTo (x : Binary64) (bits : ℕ) : Binary64 := nearest (x.scaled bits) (2 ^ bits)

/-- It is exact, since a rounding of a double is one. -/
theorem toRat_roundedTo (x : Binary64) (bits : ℕ) :
    (x.roundedTo bits).isFinite ∧ (x.roundedTo bits).toRat = x.scaled bits / 2 ^ bits := by
  have hcast : (x.scaled bits : ℚ) / 2 ^ bits = x.scaled bits / ((2 ^ bits : ℕ) : ℚ) := by
    push_cast
    rfl
  have hrepresentable := representable_halfUp (representable_toRat x) bits
  rw [← scaled_eq_halfUp, hcast] at hrepresentable
  rw [hcast]
  exact toRat_nearest (by positivity) hrepresentable

end Binary64

namespace Inference

variable {xs ys : List Binary64} {tolerance : Binary64} {bound : Datum} {d : Format}

/-! ## The second inference -/

/-- What takes the place of a sample: a number on the grid, nearer than the tolerance. -/
def Near (tolerance : Binary64) (bits : ℕ) (x y : Binary64) : Prop :=
  y.isFinite ∧ (∃ k : ℤ, y.toRat = k / 2 ^ bits) ∧ |y.toRat - x.toRat| < tolerance.toRat

/-- At every width below the inferred one such a number is too far off, since some sample was. -/
theorem Inferred.exists_far (h : Inferred xs tolerance bound d)
    (hys : List.Forall₂ (Near tolerance d.fractionalBits) xs ys) {bits : ℕ}
    (hbits : bits < d.fractionalBits) :
    ∃ y ∈ ys, tolerance.toRat ≤ halfUpError y.toRat bits := by
  obtain ⟨previous, hprevious⟩ : ∃ n, d.fractionalBits = n + 1 :=
    Nat.exists_eq_succ_of_ne_zero (by omega)
  -- a sample that is too far from the grid of the width before the inferred one
  obtain ⟨x, hx, hfar⟩ : ∃ x ∈ xs, tolerance.toRat ≤ halfUpError x.toRat previous := by
    have hnone := h.first previous (by omega)
    push Not at hnone
    exact hnone
  obtain ⟨y, hy, -, ⟨k, hk⟩, hnear⟩ := exists_of_forall₂ hys hx
  rw [hprevious] at hk
  rw [hk] at hnear
  refine ⟨y, hy, ?_⟩
  calc tolerance.toRat ≤ halfUpError y.toRat previous := hk ▸ le_halfUpError_of_near hnear hfar
    _ ≤ halfUpError y.toRat bits := halfUpError_antitone y.toRat (by omega)

/-- Numbers on the grid of an inferred format that are nearer to the samples than the tolerance
have the same fractional width inferred. Signedness and integer width may differ. -/
theorem Inferred.of_near (h : Inferred xs tolerance bound d)
    (hys : List.Forall₂ (Near tolerance d.fractionalBits) xs ys) :
    Inferred ys tolerance bound
      ⟨ys.any (·.isNegative), integerBits ys, d.fractionalBits⟩ := by
  have hright : ∀ y ∈ ys, ∃ x ∈ xs, Near tolerance d.fractionalBits x y :=
    fun _ => exists_of_mem_forall₂ hys
  constructor
  case nonempty =>
    obtain ⟨x, hx⟩ := List.exists_mem_of_ne_nil xs h.nonempty
    obtain ⟨y, hy, -⟩ := exists_of_forall₂ hys hx
    exact List.ne_nil_of_mem hy
  case tolerance_finite => exact h.tolerance_finite
  case tolerance_pos => exact h.tolerance_pos
  case finite =>
    intro y hy
    obtain ⟨x, -, hfinite, -⟩ := hright y hy
    exact hfinite
  case signed_eq => rfl
  case integerBits_eq => rfl
  case within => exact h.within
  -- on the grid of the format nothing is lost by rounding again
  case accurate =>
    intro y hy
    obtain ⟨x, -, -, ⟨k, hk⟩, -⟩ := hright y hy
    have hgrid : y.toRat * 2 ^ d.fractionalBits = k := by
      rw [hk, div_mul_cancel₀ _ (by positivity)]
    show halfUpError y.toRat d.fractionalBits < tolerance.toRat
    rw [halfUpError, halfUp_of_eq hgrid, hk, sub_self, abs_zero]
    exact h.tolerance_pos
  -- with fewer bits some number would be too far from its sample
  case first =>
    intro bits hlt hall
    obtain ⟨y, hy, hfar⟩ := h.exists_far hys hlt
    exact absurd (hall y hy) (not_lt.mpr hfar)

/-- A rounding to the inferred width is nearer than the tolerance. -/
theorem Inferred.near_roundedTo (h : Inferred xs tolerance bound d) {x : Binary64} (hx : x ∈ xs) :
    Near tolerance d.fractionalBits x (x.roundedTo d.fractionalBits) := by
  obtain ⟨hfinite, hvalue⟩ := x.toRat_roundedTo d.fractionalBits
  have herror := h.accurate x hx
  rw [halfUpError, ← Binary64.scaled_eq_halfUp] at herror
  exact ⟨hfinite, ⟨_, hvalue⟩, by rwa [hvalue]⟩

/-- The roundings of the samples to the inferred width have this width inferred in turn. -/
theorem inferFrom_rounded {epsilon : Datum} (h : inferFrom (xs.map .real) epsilon bound = .ok d) :
    ∃ again, inferFrom ((xs.map (·.roundedTo d.fractionalBits)).map .real) epsilon bound =
      .ok again ∧ again.fractionalBits = d.fractionalBits := by
  obtain ⟨tolerance, hepsilon, hinfer⟩ := inferFrom_eq_ok_iff.mp h
  obtain ⟨hinferred, hreaches⟩ := infer_eq_ok_iff.mp hinfer
  have hnear : List.Forall₂ (Near tolerance d.fractionalBits) xs
      (xs.map (·.roundedTo d.fractionalBits)) := by
    rw [List.forall₂_map_right_iff, List.forall₂_same]
    exact fun _ => hinferred.near_roundedTo
  have hagain := infer_eq_ok_iff.mpr ⟨hinferred.of_near hnear, hreaches⟩
  exact ⟨_, inferFrom_eq_ok_iff.mpr ⟨tolerance, hepsilon, hagain⟩, rfl⟩

end Inference

end BinaryPoint
