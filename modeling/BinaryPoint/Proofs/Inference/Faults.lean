import BinaryPoint.Proofs.Binary64.Underflow
import BinaryPoint.Proofs.Faults
import BinaryPoint.Proofs.Inference.Threshold
import BinaryPoint.Proofs.Inference.Width

/-! # The faults of inference

A bound that is an integer in the range of a registry makes inference fail with reported
faults only, and gives formats whose widths are far from the limit of what is written. A
bound that is a double, though it may have no fraction, makes every search fail with a fault
of types.

* `atWorst_infer_int`, `atWorst_infer_real`: the faults of inference, by the bound;
* `Inferred.width_lt`: the width of a format that was inferred.
-/

namespace BinaryPoint

namespace Binary64

/-- The number of a double is below the least power of two that is none. -/
theorem toRat_lt_top (x : Binary64) : x.toRat < 2 ^ (1024 : ℤ) := by
  obtain ⟨u, hu, -, h971, -, h1024⟩ := top_powers
  have hle := (le_abs_self _).trans (representable_toRat x).abs_le
  rw [h971] at hle
  rw [h1024]
  linarith only [hle, hu]

theorem integerWidth_le {x : Binary64} (hx : x.isFinite) : x.integerWidth.toRat ≤ 1024 := by
  rcases lt_or_ge 0 x.toRat with hpos | hneg
  · rw [integerWidth_of_pos hx hpos]
    exact_mod_cast toRat_log2_le hx hpos (n := 1024) (toRat_lt_top x).le
  · obtain ⟨hfinite, hone⟩ := one_le_neg_add_one hx hneg
    rw [integerWidth_of_nonpos hx hneg]
    exact_mod_cast toRat_log2_le hfinite (by linarith) (n := 1024) (toRat_lt_top (-x + one)).le

end Binary64

namespace Inference

variable {samples : List Binary64} {tolerance : Binary64} {bound : Datum} {d : Format}

/-! ## The width of an inferred format -/

theorem integerBits_le (hne : samples ≠ []) (hfinite : ∀ x ∈ samples, x.isFinite) :
    integerBits samples ≤ 1024 :=
  (integerBits_le_iff hne hfinite).mpr fun x hx => Binary64.integerWidth_le (hfinite x hx)

/-- What the sign and the widths come to is written with few digits. -/
theorem Inferred.width_lt {n : ℤ} (h : Inferred samples tolerance (.int n) d) (hn : n ≤ 1074) :
    d.width < Decimal.writeLimit := by
  have hinteger : d.integerBits ≤ 1024 := h.integerBits_eq ▸ integerBits_le h.nonempty h.finite
  have hfraction : (d.fractionalBits : ℤ) ≤ 1074 := by
    obtain ⟨count, hcount, hlt⟩ := h.within
    cases hcount
    omega
  have hsign : d.signed.toNat ≤ 1 := d.signed.toNat_le
  apply Decimal.lt_writeLimit
  rw [Format.width]
  omega

/-! ## Faults -/

/-- What the bound itself can lead to, and else reported faults. -/
theorem atWorst_infer_of {E : Fault → Prop} (hE : ∀ f, f.reported → E f)
    (hplain : ∃ plain, bound.plain? = some plain) (hcount : AtWorst E (widthCount bound))
    (hstep : ∀ count, widthCount bound = .ok count → AtWorst E (finestHalfStep count)) :
    AtWorst E (infer samples tolerance bound) := by
  obtain ⟨plain, hplain⟩ := hplain
  unfold infer
  by_cases hempty : samples.isEmpty
  · simp only [hempty, if_true, refuse_bind]
    exact (AtWorst.report rfl rfl).mono hE
  by_cases htolerance : tolerance.isFinite && tolerance.isPositive
  swap
  · simp only [hempty, htolerance, Bool.false_eq_true, if_false, Bool.not_false, if_true,
      refuse_bind]
    exact (AtWorst.report rfl (by simp [Fault.message?, Datum.shown?])).mono hE
  simp only [hempty, htolerance, Bool.false_eq_true, if_false, Bool.not_true]
  cases hfinite : samples.findIdx? (!·.isFinite) with
  | some i => exact (AtWorst.report rfl rfl).mono hE
  | none =>
    -- the samples are in order, and the bound is looked at next
    apply AtWorst.bind hcount
    intro count hrun
    apply AtWorst.bind (hstep count hrun)
    intro halfStep _
    split
    · -- a tolerance below half the finest step
      exact (AtWorst.report rfl (by simp [Fault.message?, hplain])).mono hE
    · split
      · exact .ok _
      · exact (AtWorst.report rfl (by simp [Fault.message?, hplain])).mono hE

/-- A bound in the range of a registry never stops a search, save by a reported fault. -/
theorem atWorst_infer_int {n : ℤ} (hlow : 0 ≤ n) (hhigh : n ≤ 1074) :
    AtWorst (·.reported) (infer samples tolerance (.int n)) := by
  apply atWorst_infer_of (fun _ h => h)
  · rw [Datum.plain?_int]
    exact Decimal.exists_write? (Decimal.lt_writeLimit (by omega))
  · exact .ok (n + 1)
  · rintro _ ⟨⟩
    obtain ⟨k, hk⟩ := Int.eq_ofNat_of_zero_le (show 0 ≤ n + 1 by omega)
    rw [finestHalfStep, hk, if_pos (Binary64.isFinite_powerOfTwo_neg k)]
    exact .ok _

/-- A bound that is a double finds no format, and the fault may be one of types. -/
theorem atWorst_infer_real {x : Binary64} :
    AtWorst (fun f => f.reported ∨ f = .exponentNotInteger)
      (infer samples tolerance (.real x)) := by
  refine atWorst_infer_of (fun _ h => .inl h) ⟨_, rfl⟩ ?_ ?_
  · rintro _ ⟨⟩
    exact .inr rfl
  · rintro _ ⟨⟩

end Inference

end BinaryPoint
