import BinaryPoint.Inference
import BinaryPoint.Proofs.HalfUp
import BinaryPoint.Proofs.Binary64.Value
import BinaryPoint.Proofs.Outcome

/-! # The fractional width that inference finds

The search goes through the widths from zero on and stops at the first that keeps
every sample within the tolerance.

* `firstWidth_eq_some_iff`: the search finds the first width that passes a test;
* `infer_eq_ok_iff`: which format is inferred, and when;
* `infer_threshold`: the widths that keep every sample within the tolerance are the
  one found and all larger ones, since an error never grows with the width.
-/

namespace BinaryPoint.Inference

/-! ## The search -/

/-- The search finds the first width of its range that passes the test. -/
theorem firstWidth_eq_some_iff {test : ℕ → Bool} {count start width : ℕ} :
    firstWidth test count start = some width ↔
      start ≤ width ∧ width < start + count ∧ test width ∧
        ∀ w, start ≤ w → w < width → ¬ test w := by
  induction count generalizing start with
  | zero =>
    simp only [firstWidth, reduceCtorEq, false_iff]
    rintro ⟨h₁, h₂, -⟩
    omega
  | succ count ih =>
    rw [firstWidth]
    by_cases htest : test start
    · -- the first width passes, so it is the one
      rw [if_pos htest]
      constructor
      · rintro ⟨⟩
        exact ⟨le_rfl, by omega, htest, fun w h₁ h₂ => absurd h₁ (by omega)⟩
      · rintro ⟨hstart, -, -, hfirst⟩
        rcases hstart.lt_or_eq with hlt | rfl
        · exact absurd htest (hfirst start le_rfl hlt)
        · rfl
    · -- it does not, and the search goes on behind it
      rw [if_neg htest, ih]
      constructor
      · rintro ⟨h₁, h₂, hpass, hfirst⟩
        refine ⟨by omega, by omega, hpass, fun w hw hlt => ?_⟩
        rcases hw.lt_or_eq with hgt | rfl
        · exact hfirst w hgt hlt
        · exact htest
      · rintro ⟨h₁, h₂, hpass, hfirst⟩
        have hne : start ≠ width := by
          rintro rfl
          exact htest hpass
        exact ⟨by omega, by omega, hpass, fun w hw hlt => hfirst w (by omega) hlt⟩

/-- A width meets the tolerance if the rounding error of every sample is below it. -/
theorem meets_iff {samples : List Binary64} {tolerance : Binary64} {bits : ℕ} :
    meets samples tolerance bits ↔
      ∀ x ∈ samples, halfUpError x.toRat bits < tolerance.toRat := by
  simp [meets, Binary64.roundingError_eq_halfUpError]

/-! ## What a successful inference has checked -/

/-- The facts behind a format that was inferred. -/
structure Inferred (samples : List Binary64) (tolerance : Binary64) (bound : Datum)
    (d : Format) : Prop where
  nonempty : samples ≠ []
  tolerance_finite : tolerance.isFinite
  tolerance_pos : 0 < tolerance.toRat
  finite : ∀ x ∈ samples, x.isFinite
  signed_eq : d.signed = samples.any (·.isNegative)
  integerBits_eq : d.integerBits = integerBits samples
  within : ∃ count, widthCount bound = .ok count ∧ (d.fractionalBits : ℤ) < count
  accurate : ∀ x ∈ samples, halfUpError x.toRat d.fractionalBits < tolerance.toRat
  first : ∀ bits < d.fractionalBits,
    ¬ ∀ x ∈ samples, halfUpError x.toRat bits < tolerance.toRat

/-- The test before the search: half of the finest step within the bound is below the
tolerance. -/
def Reaches (tolerance : Binary64) (bound : Datum) : Prop :=
  ∃ count halfStep, widthCount bound = .ok count ∧ finestHalfStep count = .ok halfStep ∧
    halfStep.lt tolerance

/-- A format is inferred just if it is the one that the samples ask for and the tolerance is
within reach. -/
theorem infer_eq_ok_iff {samples : List Binary64} {tolerance : Binary64} {bound : Datum}
    {d : Format} :
    infer samples tolerance bound = .ok d ↔
      Inferred samples tolerance bound d ∧ Reaches tolerance bound := by
  constructor
  · intro h
    unfold infer at h
    -- each check that was passed gives one of the facts
    by_cases hempty : samples.isEmpty
    · simp [hempty] at h
    by_cases htolerance : tolerance.isFinite && tolerance.isPositive
    swap
    · simp [hempty, htolerance] at h
    cases hfinite : samples.findIdx? (!·.isFinite) with
    | some i => simp [hempty, htolerance, hfinite] at h
    | none =>
      simp only [hempty, htolerance, hfinite, Bool.false_eq_true, if_false, Bool.not_true,
        bind_eq_ok] at h
      obtain ⟨count, hcount, halfStep, hstep, h⟩ := h
      split at h
      · simp at h
      · next hlt =>
        cases hwidth : firstWidth (meets samples tolerance) count.toNat 0 with
        | none => simp [hwidth] at h
        | some bits =>
          simp only [hwidth, Except.ok.injEq] at h
          subst h
          obtain ⟨-, hcountLt, hmeets, hfirst⟩ := firstWidth_eq_some_iff.mp hwidth
          rw [Bool.and_eq_true] at htolerance
          refine ⟨?_, count, halfStep, hcount, hstep, by simpa using hlt⟩
          exact
            { nonempty := by simpa using hempty
              tolerance_finite := htolerance.1
              tolerance_pos := (Binary64.isPositive_iff htolerance.1).mp htolerance.2
              finite := by simpa using hfinite
              signed_eq := rfl
              integerBits_eq := rfl
              within := ⟨count, hcount, by show (bits : ℤ) < count; omega⟩
              accurate := meets_iff.mp hmeets
              first := fun w hlt hall => hfirst w (Nat.zero_le w) hlt (meets_iff.mpr hall) }
  · rintro ⟨h, count, halfStep, hcount, hstep, hlt⟩
    -- and each of the facts gets past its check
    have hempty : samples.isEmpty = false := by simpa using h.nonempty
    have hpositive : tolerance.isPositive = true :=
      (Binary64.isPositive_iff h.tolerance_finite).mpr h.tolerance_pos
    have hfinite : samples.findIdx? (!·.isFinite) = none := by simpa using h.finite
    -- the search finds the width that is the first one to do
    have hwidth : firstWidth (meets samples tolerance) count.toNat 0 = some d.fractionalBits := by
      obtain ⟨count', hcount', hwithin⟩ := h.within
      cases hcount.symm.trans hcount'
      refine firstWidth_eq_some_iff.mpr ⟨Nat.zero_le _, by omega, meets_iff.mpr h.accurate, ?_⟩
      exact fun w _ hw hmeets => h.first w hw (meets_iff.mp hmeets)
    unfold infer
    simp only [hempty, h.tolerance_finite, hpositive, hfinite, hcount, hstep, hlt, hwidth, ok_bind]
    rw [← h.signed_eq, ← h.integerBits_eq]
    rfl

theorem inferred_of_infer {samples : List Binary64} {tolerance : Binary64} {bound : Datum}
    {d : Format} (h : infer samples tolerance bound = .ok d) :
    Inferred samples tolerance bound d :=
  (infer_eq_ok_iff.mp h).1

namespace Inferred

variable {samples : List Binary64} {tolerance : Binary64} {bound : Datum} {d : Format}

/-- The inferred format is signed just if some sample is below zero. -/
theorem signed_iff (h : Inferred samples tolerance bound d) :
    d.signed ↔ ∃ x ∈ samples, x.toRat < 0 := by
  rw [h.signed_eq, List.any_eq_true]
  constructor
  · rintro ⟨x, hx, hneg⟩
    exact ⟨x, hx, (Binary64.isNegative_iff (h.finite x hx)).mp hneg⟩
  · rintro ⟨x, hx, hneg⟩
    exact ⟨x, hx, (Binary64.isNegative_iff (h.finite x hx)).mpr hneg⟩

/-- The inferred width is a threshold: since errors never grow with the width, the widths
that keep all samples within the tolerance are those from it on. -/
theorem accurate_iff (h : Inferred samples tolerance bound d) (bits : ℕ) :
    (∀ x ∈ samples, halfUpError x.toRat bits < tolerance.toRat) ↔ d.fractionalBits ≤ bits := by
  constructor
  · intro hall
    by_contra hlt
    exact h.first bits (not_le.mp hlt) hall
  · intro hle x hx
    exact (halfUpError_antitone x.toRat hle).trans_lt (h.accurate x hx)

end Inferred

/-! ## The exact threshold -/

/-- Inference returns the exact threshold width: it is within the bound of the search, and a
width keeps the error of every sample below the tolerance just if it is not smaller. The
format is signed just if a sample is below zero. -/
theorem infer_threshold {samples : List Binary64} {tolerance : Binary64} {bound : ℕ}
    {d : Format} (h : infer samples tolerance (.int bound) = .ok d) :
    d.fractionalBits ≤ bound ∧ (d.signed ↔ ∃ x ∈ samples, x.toRat < 0) ∧
      ∀ bits : ℕ, (∀ x ∈ samples,
        |(x.scaled bits : ℚ) / 2 ^ bits - x.toRat| < tolerance.toRat) ↔
          d.fractionalBits ≤ bits := by
  have hinferred := inferred_of_infer h
  obtain ⟨count, hcount, hlt⟩ := hinferred.within
  have hbound : count = bound + 1 := by
    simpa [widthCount, Datum.number?] using hcount.symm
  refine ⟨by omega, hinferred.signed_iff, fun bits => ?_⟩
  rw [← hinferred.accurate_iff bits]
  simp only [Binary64.scaled_eq_halfUp, halfUpError]

/-- Eighths and quarters need three fractional bits; a negative zero has no sign to keep. -/
theorem infer_threshold_eighths :
    let samples := [.ofRatio false 9 8, .ofRatio false 3 4, Binary64.zero true]
    infer samples (.ofRatio false 1 1000) (.int (52 : ℕ)) = .ok ⟨false, 1, 3⟩ ∧
      (¬ ∃ x ∈ samples, x.toRat < 0) ∧
      ∀ bits : ℕ, (∀ x ∈ samples,
        |(x.scaled bits : ℚ) / 2 ^ bits - x.toRat| < (Binary64.ofRatio false 1 1000).toRat) ↔
          3 ≤ bits := by
  intro samples
  have h : infer samples (.ofRatio false 1 1000) (.int (52 : ℕ)) = .ok ⟨false, 1, 3⟩ :=
    eq_ok_of_toOption (by decide +kernel)
  obtain ⟨-, hsigned, hthreshold⟩ := infer_threshold h
  exact ⟨h, fun hneg => Bool.false_ne_true (hsigned.mpr hneg), hthreshold⟩

end BinaryPoint.Inference
