import BinaryPoint.Proofs.Inference.Threshold
import BinaryPoint.Proofs.Inference.Width
import BinaryPoint.Proofs.Range

/-! # Binding samples to the format inferred from them

The fractional width of an inferred format keeps its samples within the tolerance.
Its integer width is computed apart from the range check of binding, from a
logarithm that is rounded. So whether a sample can be bound is not a matter of
course, and the condition is exact:

* `bind_sample_iff`: a sample of a format inferred with `I` integer and `F`
  fractional bits is bound, and bound within the tolerance, just if its magnitude
  is below `2^I` and half a step, a tie being accepted on the negative side;
* one that is not was given exactly `I` bits by its own rounded logarithm although
  its magnitude is above `2^I`.
-/

namespace BinaryPoint

/-- A number that is at least half a step beyond the greatest magnitude of a format. At the
negative end the half step itself is rounded back into the range. -/
def Format.Overshoots (d : Format) (q : ℚ) : Prop :=
  2 ^ d.integerBits + d.halfStep ≤ q ∨ q < -(2 ^ d.integerBits + d.halfStep)

instance (d : Format) (q : ℚ) : Decidable (d.Overshoots q) :=
  inferInstanceAs (Decidable (_ ∨ _))

namespace Inference

variable {samples : List Binary64} {tolerance : Binary64} {bound : Datum} {d : Format}
  {x : Binary64}

/-- The range of an inferred format ends for its samples where the magnitudes end: an
unsigned one has no negative sample. -/
theorem Inferred.holds_iff (h : Inferred samples tolerance bound d) (hx : x ∈ samples) :
    d.Holds (halfUp x.toRat d.fractionalBits) ↔ ¬ d.Overshoots x.toRat := by
  have hstep := d.halfStep_pos
  have hpow : (0 : ℚ) < 2 ^ d.integerBits := by positivity
  rw [Format.holds_halfUp_iff, Format.Overshoots, not_or, not_le, not_lt, and_comm]
  apply and_congr_right
  intro _
  by_cases hsigned : d.signed
  · rw [Format.lowest, if_pos hsigned, neg_add']
  · -- both lower ends are below zero, and no sample is
    have hnonneg : 0 ≤ x.toRat := by
      by_contra hneg
      exact hsigned (h.signed_iff.mpr ⟨x, hx, not_le.mp hneg⟩)
    rw [Format.lowest, if_neg hsigned]
    constructor <;> intro _ <;> linarith

/-- A sample beyond the range has a magnitude above the power of two that its own rounded
logarithm stands for. -/
theorem Inferred.integerWidth_of_overshoots (h : Inferred samples tolerance bound d)
    (hx : x ∈ samples) (hover : d.Overshoots x.toRat) :
    2 ^ d.integerBits < |x.toRat| ∧ x.integerWidth.toRat = d.integerBits := by
  have hstep := d.halfStep_pos
  have habove : 2 ^ d.integerBits < |x.toRat| := by
    rw [lt_abs]
    rcases hover with hhigh | hlow
    · left
      linarith
    · right
      linarith
  -- the width covers every logarithm, and a logarithm every integer that its number reaches
  refine ⟨habove, le_antisymm ?_ ?_⟩
  · rw [h.integerBits_eq]
    exact integerWidth_le_integerBits h.finite hx
  · exact Binary64.natCast_le_integerWidth (h.finite x hx) habove.le

/-- A sample can be bound to the format inferred from it and others just if it does not
overshoot, and is then within the tolerance of its value. One that overshoots is refused as
out of range; its rounded logarithm is the integer width of the format although its
magnitude is above that power of two. -/
theorem bind_sample_iff (h : infer samples tolerance bound = .ok d) {b : Binder}
    {cache : Cache ValueType} (hcache : Binder.Reached cache) {t : ValueType}
    (ht : ((b.typeFor d).runOn cache).1 = .ok t) :
    ∀ x ∈ samples,
      ((∃ v, ((b.bind d x).runOn cache).1 = .ok v ∧ v.format = d ∧
          |v.toRat - x.toRat| < tolerance.toRat) ↔ ¬ d.Overshoots x.toRat) ∧
      (d.Overshoots x.toRat →
        ((b.bind d x).runOn cache).1 =
          .error (Fault.outOfRange (x.scaled d.fractionalBits) d).settled ∧
        2 ^ d.integerBits < |x.toRat| ∧ x.integerWidth.toRat = d.integerBits) := by
  intro x hx
  have hinferred := inferred_of_infer h
  obtain rfl : t.format = d := (Binder.ensures_typeFor b d cache hcache).2 t ht
  have hholds := hinferred.holds_iff hx
  have hround := Binder.roundTo_of_isFinite (hinferred.finite x hx) t
  rw [Binder.runOn_bind_of_typeFor ht]
  refine ⟨⟨?_, ?_⟩, ?_⟩
  · rintro ⟨v, hv, -, -⟩
    rw [hround] at hv
    exact hholds.mp (Fixed.exists_ofRaw_iff.mp ⟨v, hv⟩)
  · -- in range, the value is the rounding, and inference has measured its error
    intro hinside
    obtain ⟨v, hv⟩ := Fixed.exists_ofRaw_iff.mpr (hholds.mpr hinside)
    rw [← hround] at hv
    have hrounds := Binder.rounds_of_roundTo hv
    refine ⟨v, hv, hrounds.1, ?_⟩
    rw [hrounds.abs_sub]
    exact hinferred.accurate x hx
  · -- out of range, the scaled integer of the sample is what the refusal names
    intro hover
    refine ⟨?_, hinferred.integerWidth_of_overshoots hx hover⟩
    have hraw := (not_congr hholds).mpr (not_not.mpr hover)
    rw [hround, Fixed.ofRaw_of_not_holds hraw, Binary64.scaled_eq_halfUp]
    rfl

/-- Sixteen and a little more needs 48 fractional bits within `10^-15`, and gets four integer
bits: its logarithm is rounded to four. Three is bound to that format, the other is not. -/
theorem bind_sample_iff_above_sixteen :
    let above := Binary64.ofRatio false (2 ^ 52 + 1) (2 ^ 48)
    let three := Binary64.ofRatio false 3 1
    let tolerance := Binary64.ofRatio false 1 (10 ^ 15)
    let run (x : Binary64) :=
      (((⟨.int 1024, 0⟩ : Binder).bind (.format ⟨false, 4, 48⟩) x).runOn {}).1
    run above = .error (Fault.outOfRange (above.scaled 48) ⟨false, 4, 48⟩).settled ∧
      ∃ v, run three = .ok v ∧ |v.toRat - three.toRat| < tolerance.toRat := by
  intro above three tolerance run
  have h : infer [above, three] tolerance (.int 52) = .ok ⟨false, 4, 48⟩ :=
    eq_ok_of_toOption (by decide +kernel)
  have ht : (((⟨.int 1024, 0⟩ : Binder).typeFor (.format ⟨false, 4, 48⟩)).runOn {}).1 =
      .ok ⟨⟨false, 4, 48⟩, 0, by decide⟩ := eq_ok_of_toOption (by decide +kernel)
  have hall := bind_sample_iff h .empty ht
  constructor
  · exact ((hall above (by simp)).2 (by decide +kernel)).1
  · obtain ⟨v, hv, -, herror⟩ := (hall three (by simp)).1.mpr (by decide +kernel)
    exact ⟨v, hv, herror⟩

/-- Not every sample can be bound to the format inferred from it, even alone and within a
tolerance that the search reaches. -/
theorem not_forall_sample_bound :
    ¬ ∀ (samples : List Binary64) (tolerance : Binary64) (bound : ℕ) (d : Format),
      infer samples tolerance (.int bound) = .ok d →
      ∀ (b : Binder) (cache : Cache ValueType), Binder.Reached cache →
      (∃ t, ((b.typeFor d).runOn cache).1 = .ok t) →
      ∀ x ∈ samples, ∃ v, ((b.bind d x).runOn cache).1 = .ok v ∧
        |v.toRat - x.toRat| < tolerance.toRat := by
  intro hall
  let above := Binary64.ofRatio false (2 ^ 52 + 1) (2 ^ 48)
  let binder : Binder := ⟨.int 1024, 0⟩
  have h : infer [above] (.ofRatio false 1 (10 ^ 15)) (.int (52 : ℕ)) = .ok ⟨false, 4, 48⟩ :=
    eq_ok_of_toOption (by decide +kernel)
  have ht : ((binder.typeFor (.format ⟨false, 4, 48⟩)).runOn {}).1 =
      .ok ⟨⟨false, 4, 48⟩, 0, by decide⟩ := eq_ok_of_toOption (by decide +kernel)
  obtain ⟨v, hv, -⟩ := hall [above] _ 52 _ h binder {} .empty ⟨_, ht⟩ above (by simp)
  have hnone : ((binder.bind (.format ⟨false, 4, 48⟩) above).runOn {}).1.toOption = none := by
    decide +kernel
  rw [hv] at hnone
  cases hnone

end Inference

end BinaryPoint
