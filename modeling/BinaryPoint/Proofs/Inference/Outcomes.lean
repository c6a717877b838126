import BinaryPoint.Proofs.Binary64.Underflow
import BinaryPoint.Proofs.Faults
import BinaryPoint.Proofs.Inference.Threshold

/-! # How an inference ends

Four things can be wrong with the samples, the tolerance and the bound of a search. They are
looked for one after the other, and the first that is found decides on the fault
(`infer_of_not_positive`, `infer_of_not_finite`, `infer_of_not_reached`). The last of the
tests is on a rounded power of two but has the outcome of the exact comparison, and where it
is passed the bound itself is a width that meets the tolerance. So there is no fifth way to
fail:

* `exists_infer`: the search never runs out of widths;
* `infer_outcome_iff`: each outcome just under its condition.
-/

namespace BinaryPoint.Inference

variable {samples : List Binary64} {tolerance : Binary64} {bound : ℕ}

theorem mapM_toReal (samples : List Binary64) :
    (samples.map Datum.real).mapM Datum.toReal = .ok samples := by
  rw [mapM_eq_ok, List.forall₂_map_left_iff, List.forall₂_same]
  exact fun _ _ => rfl

/-- The faults of samples and of a tolerance are found in any case, those of values of unknown
type the same way. -/
theorem inferFrom_real (samples : List Binary64) (tolerance : Binary64) (bound : Datum) :
    inferFrom (samples.map .real) (.real tolerance) bound = infer samples tolerance bound := by
  unfold inferFrom infer
  rw [mapM_toReal]
  simp only [ok_bind, Datum.toReal]
  by_cases hempty : samples.isEmpty
  · simp [hempty]
  by_cases hpositive : tolerance.isFinite && tolerance.isPositive
  · simp [hempty, hpositive]
  · simp [hempty, hpositive]

/-- With a tolerance of unknown type a format is inferred just if that is a number, and then the
format that is inferred with the number. -/
theorem inferFrom_eq_ok_iff {samples : List Binary64} {epsilon bound : Datum} {d : Format} :
    inferFrom (samples.map .real) epsilon bound = .ok d ↔
      ∃ tolerance, epsilon.toReal = .ok tolerance ∧ infer samples tolerance bound = .ok d := by
  unfold inferFrom
  rw [mapM_toReal]
  by_cases hempty : samples = []
  · simp [hempty, infer]
  cases hepsilon : epsilon.toReal with
  | error f =>
    by_cases hkind : f.kind = .type ∨ f.kind = .value
    all_goals simp [hempty, hkind]
  | ok tolerance =>
    by_cases hrefused : tolerance.isFinite = false ∨ tolerance.isPositive = false
    · simp [hempty, hrefused, infer]
    · simp [hempty, hrefused]

/-! ## What is refused -/

theorem infer_of_not_positive (hne : samples ≠ [])
    (h : ¬ (tolerance.isFinite ∧ 0 < tolerance.toRat)) :
    infer samples tolerance (.int bound) = .error (.toleranceNotPositive (.real tolerance)) := by
  have hempty : samples.isEmpty = false := by simpa using hne
  have htest : (tolerance.isFinite && tolerance.isPositive) = false := by
    rw [Bool.eq_false_iff, ne_eq, Bool.and_eq_true]
    rintro ⟨hfinite, hpositive⟩
    exact h ⟨hfinite, (Binary64.isPositive_iff hfinite).mp hpositive⟩
  rw [← refuse_of_worded (by simp [Fault.message?, Datum.shown?])]
  simp [infer, hempty, htest]

theorem infer_of_not_finite (hne : samples ≠ []) (htolerance : tolerance.isFinite)
    (hpos : 0 < tolerance.toRat) (h : ¬ ∀ x ∈ samples, x.isFinite) :
    ∃ i x, infer samples tolerance (.int bound) = .error (.sampleNotFinite i x) := by
  have hempty : samples.isEmpty = false := by simpa using hne
  have hpositive : tolerance.isPositive = true := (Binary64.isPositive_iff htolerance).mpr hpos
  cases hfirst : samples.findIdx? (!·.isFinite) with
  | none => exact absurd (by simpa using hfirst) h
  | some i =>
    refine ⟨i, samples.getD i .nan, ?_⟩
    rw [← refuse_of_worded rfl]
    simp [infer, hempty, htolerance, hpositive, hfirst]

/-! ## The test before the search -/

/-- Half of the finest step is always a finite double, be it zero. -/
theorem finestHalfStep_natCast (bound : ℕ) :
    finestHalfStep (bound + 1) = .ok (Binary64.powerOfTwo (-(bound + 1 : ℕ))) :=
  if_pos (Binary64.isFinite_powerOfTwo_neg (bound + 1))

/-- The test compares with a rounded power of two, and has the outcome of the exact comparison. -/
theorem reaches_int_iff (htolerance : tolerance.isFinite) (hpos : 0 < tolerance.toRat) :
    Reaches tolerance (.int bound) ↔ 1 / 2 ^ (bound + 1) < tolerance.toRat := by
  rw [← Binary64.powerOfTwo_neg_lt_iff htolerance hpos]
  constructor
  · rintro ⟨_, halfStep, ⟨⟩, hhalf, hlt⟩
    cases (finestHalfStep_natCast bound).symm.trans hhalf
    exact hlt
  · intro hlt
    exact ⟨bound + 1, _, rfl, finestHalfStep_natCast bound, hlt⟩

/-- A positive tolerance is not below the least double, so the bound of a search that does not
reach it has few digits. -/
theorem worded_toleranceTooFine (hpos : 0 < tolerance.toRat)
    (h : tolerance.toRat ≤ 1 / 2 ^ (bound + 1)) :
    (Fault.toleranceTooFine tolerance (.int bound)).message?.isSome := by
  have hleast := (Binary64.representable_toRat tolerance).le_of_pos hpos
  rw [Binary64.one_div_two_pow] at h
  have hexponent := (zpow_le_zpow_iff_right₀ one_lt_two).mp (hleast.trans h)
  obtain ⟨text, htext⟩ : ∃ text, Decimal.write? bound = some text :=
    Decimal.exists_write? (Decimal.lt_writeLimit (by omega))
  simp [Fault.message?, Datum.plain?_int, htext]

theorem infer_of_not_reached (hne : samples ≠ []) (htolerance : tolerance.isFinite)
    (hpos : 0 < tolerance.toRat) (hfinite : ∀ x ∈ samples, x.isFinite)
    (h : tolerance.toRat ≤ 1 / 2 ^ (bound + 1)) :
    infer samples tolerance (.int bound) = .error (.toleranceTooFine tolerance (.int bound)) := by
  have hempty : samples.isEmpty = false := by simpa using hne
  have hpositive : tolerance.isPositive = true := (Binary64.isPositive_iff htolerance).mpr hpos
  have hnone : samples.findIdx? (!·.isFinite) = none := by simpa using hfinite
  have hcount : widthCount (.int bound) = .ok (bound + 1 : ℤ) := rfl
  have htest : (Binary64.powerOfTwo (-(bound + 1 : ℕ))).lt tolerance = false := by
    rw [Bool.eq_false_iff, ne_eq, Binary64.powerOfTwo_neg_lt_iff htolerance hpos]
    exact not_lt.mpr h
  rw [← refuse_of_worded (worded_toleranceTooFine hpos h), infer, hnone]
  simp only [hempty, htolerance, hpositive, hcount, finestHalfStep_natCast, htest, ok_bind]
  rfl

/-! ## The search -/

/-- The width of the bound itself meets a tolerance within reach, since rounding is off by half
a step at most. -/
theorem exists_infer (hne : samples ≠ []) (htolerance : tolerance.isFinite)
    (hpos : 0 < tolerance.toRat) (hfinite : ∀ x ∈ samples, x.isFinite)
    (h : 1 / 2 ^ (bound + 1) < tolerance.toRat) :
    ∃ d, infer samples tolerance (.int bound) = .ok d := by
  classical
  -- The format is that of the least width that suits all samples, which the bound is not below.
  have hbound : ∀ x ∈ samples, halfUpError x.toRat bound < tolerance.toRat :=
    fun x _ => (halfUpError_le x.toRat bound).trans_lt h
  have hmeets : ∃ bits, ∀ x ∈ samples, halfUpError x.toRat bits < tolerance.toRat :=
    ⟨bound, hbound⟩
  have hfind : Nat.find hmeets ≤ bound := Nat.find_min' hmeets hbound
  refine ⟨⟨samples.any (·.isNegative), integerBits samples, Nat.find hmeets⟩, ?_⟩
  refine infer_eq_ok_iff.mpr ⟨?_, (reaches_int_iff htolerance hpos).mpr h⟩
  exact
    { nonempty := hne
      tolerance_finite := htolerance
      tolerance_pos := hpos
      finite := hfinite
      signed_eq := rfl
      integerBits_eq := rfl
      within := ⟨bound + 1, rfl, by simp only; omega⟩
      accurate := Nat.find_spec hmeets
      first := fun _ hlt => Nat.find_min hmeets hlt }

/-! ## All outcomes -/

/-- How an inference ends: with the first of four faults whose cause is there, and else with a
format. The cause of the last one is told by the exact numbers, and the search behind it never
runs out of widths. All this holds for values of unknown type too where these are doubles. -/
theorem infer_outcome_iff (samples : List Binary64) (tolerance : Binary64) (bound : ℕ) :
    let outcome := infer samples tolerance (.int bound)
    let positive := tolerance.isFinite ∧ 0 < tolerance.toRat
    let finite := ∀ x ∈ samples, x.isFinite
    inferFrom (samples.map .real) (.real tolerance) (.int bound) = outcome ∧
    (FailsAs .emptyInput outcome ↔ samples = []) ∧
    (FailsAs .invalidTolerance outcome ↔ samples ≠ [] ∧ ¬ positive) ∧
    (FailsAs .invalidSample outcome ↔ samples ≠ [] ∧ positive ∧ ¬ finite) ∧
    (FailsAs .toleranceUnreachable outcome ↔
      samples ≠ [] ∧ positive ∧ finite ∧ tolerance.toRat ≤ 1 / 2 ^ (bound + 1)) ∧
    ((∃ d, outcome = .ok d) ↔
      samples ≠ [] ∧ positive ∧ finite ∧ 1 / 2 ^ (bound + 1) < tolerance.toRat) ∧
    outcome ≠ refuse (.widthsExhausted (.int bound) samples.length tolerance) := by
  intro outcome positive finite
  refine ⟨inferFrom_real samples tolerance (.int bound), ?_⟩
  -- The tests in their order: where one fails the outcome is its fault, and the conditions of
  -- all other outcomes are false because they exclude it.
  by_cases hne : samples = []
  · have houtcome : outcome = .error .noSamples := by
      show infer samples tolerance (.int bound) = _
      rw [hne]
      rfl
    rw [houtcome]
    refine ⟨?_, ?_, ?_, ?_, ?_, error_ne_refuse nofun nofun⟩
    all_goals simp [hne, Fault.kind]
  by_cases hpositive : positive
  swap
  · have houtcome : outcome = .error (.toleranceNotPositive (.real tolerance)) :=
      infer_of_not_positive hne hpositive
    rw [houtcome]
    refine ⟨?_, ?_, ?_, ?_, ?_, error_ne_refuse nofun nofun⟩
    all_goals simp [hne, hpositive, Fault.kind]
  by_cases hfinite : finite
  swap
  · obtain ⟨i, x, houtcome⟩ : ∃ i x, outcome = .error (.sampleNotFinite i x) :=
      infer_of_not_finite hne hpositive.1 hpositive.2 hfinite
    rw [houtcome]
    refine ⟨?_, ?_, ?_, ?_, ?_, error_ne_refuse nofun nofun⟩
    all_goals simp [hne, hpositive, hfinite, Fault.kind]
  rcases le_or_gt tolerance.toRat (1 / 2 ^ (bound + 1)) with hfine | hcoarse
  · have houtcome : outcome = .error (.toleranceTooFine tolerance (.int bound)) :=
      infer_of_not_reached hne hpositive.1 hpositive.2 hfinite hfine
    rw [houtcome]
    refine ⟨?_, ?_, ?_, ?_, ?_, error_ne_refuse nofun nofun⟩
    all_goals simp only [hfine, hfine.not_gt, failsAs_error, Fault.kind]
    all_goals simp [hne, hpositive, hfinite]
  · obtain ⟨d, houtcome⟩ : ∃ d, outcome = .ok d :=
      exists_infer hne hpositive.1 hpositive.2 hfinite hcoarse
    rw [houtcome]
    refine ⟨?_, ?_, ?_, ?_, ?_, (refuse_ne_ok _ d).symm⟩
    all_goals simp only [hcoarse, hcoarse.not_ge, not_failsAs_ok]
    all_goals simp [hne, hpositive, hfinite]

end BinaryPoint.Inference
