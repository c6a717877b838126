import BinaryPoint.Proofs.Binder.Types
import BinaryPoint.Proofs.HalfUp

/-! # The range of a format

A value is made from a scaled integer just if that is in the range of the format.
For an integer that comes from rounding, the range is read as an interval of the
numbers that are rounded: half a step beyond the least and the greatest value, the
lower end included and the upper one not (`holds_halfUp_iff`). A value that comes
from rounding is told from its format and its number (`Rounds`).
-/

namespace BinaryPoint

namespace Format

/-- The least number that a format holds. -/
def lowest (d : Format) : ℚ := if d.signed then -2 ^ d.integerBits else 0

theorem neg_le_lowest (d : Format) : -2 ^ d.integerBits ≤ d.lowest := by
  rw [lowest]
  split
  · exact le_rfl
  · exact neg_nonpos.mpr (by positivity)

/-- Half the distance between neighbouring values. -/
def halfStep (d : Format) : ℚ := 1 / 2 ^ (d.fractionalBits + 1)

theorem halfStep_pos (d : Format) : 0 < d.halfStep := by
  rw [halfStep]
  positivity

theorem halfStep_mul (d : Format) : d.halfStep * 2 ^ d.fractionalBits = 1 / 2 := by
  rw [halfStep, pow_succ]
  field_simp

theorem rawMax_eq (d : Format) : (d.rawMax : ℚ) = 2 ^ d.integerBits * 2 ^ d.fractionalBits := by
  rw [rawMax, pow_add]
  push_cast
  rfl

theorem rawMin_eq (d : Format) : (d.rawMin : ℚ) = d.lowest * 2 ^ d.fractionalBits := by
  rw [rawMin, lowest]
  split
  · push_cast
    rw [rawMax_eq]
    ring
  · simp

/-- Every format holds zero. -/
theorem holds_zero (d : Format) : d.Holds 0 := by
  have hmax : 0 ≤ d.rawMax := by
    rw [rawMax]
    positivity
  refine ⟨?_, hmax⟩
  rw [rawMin]
  split
  · exact neg_nonpos.mpr hmax
  · exact le_rfl

/-- The numbers from the least to the greatest value of a format. -/
def Covers (d : Format) (q : ℚ) : Prop := d.lowest ≤ q ∧ q ≤ 2 ^ d.integerBits

instance (d : Format) (q : ℚ) : Decidable (d.Covers q) :=
  inferInstanceAs (Decidable (_ ∧ _))

/-- A scaled integer is in range as the number that it stands for is. -/
theorem holds_iff_covers (d : Format) (raw : ℤ) : d.Holds raw ↔ d.Covers (d.valueOf raw) := by
  have hstep : (0 : ℚ) < 2 ^ d.fractionalBits := by positivity
  rw [Covers, valueOf, le_div_iff₀ hstep, div_le_iff₀ hstep, ← rawMin_eq, ← rawMax_eq, Holds]
  norm_cast

/-- Both ends of a range are integers, and so on every grid: rounding does not leave the range,
whatever the width. -/
theorem Covers.halfUp {d : Format} {q : ℚ} (h : d.Covers q) (bits : ℕ) :
    d.Covers (BinaryPoint.halfUp q bits / 2 ^ bits) := by
  obtain ⟨hlow, hhigh⟩ := h
  have hpower : ((2 ^ d.integerBits : ℤ) : ℚ) = 2 ^ d.integerBits := by push_cast; rfl
  constructor
  · rw [lowest] at hlow ⊢
    split at hlow
    · rw [if_pos ‹_›, ← hpower]
      exact_mod_cast le_halfUp_div (k := -2 ^ d.integerBits) (by exact_mod_cast hlow) bits
    · rw [if_neg ‹_›]
      exact_mod_cast le_halfUp_div (k := 0) (by exact_mod_cast hlow) bits
  · rw [← hpower] at hhigh ⊢
    exact halfUp_div_le hhigh bits

/-- The numbers whose rounding is in the range of a format. -/
theorem holds_halfUp_iff (d : Format) (q : ℚ) :
    d.Holds (halfUp q d.fractionalBits) ↔
      d.lowest - d.halfStep ≤ q ∧ q < 2 ^ d.integerBits + d.halfStep := by
  have hstep : (0 : ℚ) < 2 ^ d.fractionalBits := by positivity
  rw [Holds, le_halfUp_iff, halfUp_le_iff, rawMin_eq, rawMax_eq, ← d.halfStep_mul, ← sub_mul,
    ← add_mul, mul_le_mul_iff_left₀ hstep, mul_lt_mul_iff_left₀ hstep]

end Format

namespace Fixed

theorem toRat_eq (v : Fixed) : v.toRat = v.raw / 2 ^ v.format.fractionalBits := rfl

/-- A scaled integer makes the value of that integer, if it makes one. -/
theorem ofRaw_eq_ok_iff {t : ValueType} {raw : ℤ} {v : Fixed} :
    ofRaw t raw = .ok v ↔ v.type = t ∧ v.raw = raw := by
  rw [ofRaw]
  constructor
  · intro h
    split at h
    · cases h
      exact ⟨rfl, rfl⟩
    · simp at h
  · rintro ⟨rfl, rfl⟩
    rw [dif_pos v.holds]

theorem exists_ofRaw_iff {t : ValueType} {raw : ℤ} :
    (∃ v, ofRaw t raw = .ok v) ↔ t.format.Holds raw := by
  constructor
  · rintro ⟨v, hv⟩
    obtain ⟨rfl, rfl⟩ := ofRaw_eq_ok_iff.mp hv
    exact v.holds
  · intro h
    exact ⟨⟨t, raw, h⟩, ofRaw_eq_ok_iff.mpr ⟨rfl, rfl⟩⟩

theorem ofRaw_of_not_holds {t : ValueType} {raw : ℤ} (h : ¬ t.format.Holds raw) :
    ofRaw t raw = refuse (.outOfRange raw t.format) := by
  rw [ofRaw, dif_neg h]

/-- A value is made again from its own scaled integer. -/
theorem ofRaw_self (v : Fixed) : ofRaw v.type v.raw = .ok v := ofRaw_eq_ok_iff.mpr ⟨rfl, rfl⟩

/-- Values of one format and one scaled integer are equal, whatever their types. -/
theorem eq_iff {v w : Fixed} : v.eq w ↔ v.format = w.format ∧ v.raw = w.raw := by
  simp [eq]

/-- In another type of its format a value has its equal. -/
theorem exists_ofRaw_eq {v : Fixed} {t : ValueType} (ht : t.format = v.format) :
    ∃ w, ofRaw t v.raw = .ok w ∧ w.eq v := by
  obtain ⟨w, hw⟩ := exists_ofRaw_iff.mpr (ht ▸ v.holds : t.format.Holds v.raw)
  obtain ⟨rfl, hraw⟩ := ofRaw_eq_ok_iff.mp hw
  exact ⟨w, hw, eq_iff.mpr ⟨ht, hraw⟩⟩

/-- A value is rounded to its own width as it is. -/
theorem halfUp_toRat (v : Fixed) : halfUp v.toRat v.format.fractionalBits = v.raw := by
  apply halfUp_of_eq
  rw [toRat_eq, div_mul_cancel₀ _ (by positivity)]

/-- The number of a value is in the range of its format. -/
theorem covers_toRat (v : Fixed) : v.format.Covers v.toRat :=
  (v.format.holds_iff_covers v.raw).mp v.holds

/-! ## Roundings -/

/-- A value is the rounding of a number to a format. -/
def Rounds (v : Fixed) (f : Format) (q : ℚ) : Prop :=
  v.format = f ∧ v.raw = halfUp q f.fractionalBits

/-- A rounding differs from the number by the rounding error at the format's width. -/
theorem Rounds.abs_sub {v : Fixed} {f : Format} {q : ℚ} (h : v.Rounds f q) :
    |v.toRat - q| = halfUpError q f.fractionalBits := by
  obtain ⟨rfl, hraw⟩ := h
  rw [toRat_eq, hraw]
  rfl

theorem Rounds.holds {v : Fixed} {f : Format} {q : ℚ} (h : v.Rounds f q) : f.Holds v.raw := by
  obtain ⟨rfl, -⟩ := h
  exact v.holds

theorem rounds_of_ofRaw {t : ValueType} {q : ℚ} {v : Fixed}
    (h : ofRaw t (halfUp q t.format.fractionalBits) = .ok v) : v.Rounds t.format q := by
  obtain ⟨rfl, hraw⟩ := ofRaw_eq_ok_iff.mp h
  exact ⟨rfl, hraw⟩

end Fixed

namespace Binder

/-- A finite double is rounded half up, in any value type. -/
theorem roundTo_of_isFinite {x : Binary64} (hx : x.isFinite) (t : ValueType) :
    roundTo t x = Fixed.ofRaw t (halfUp x.toRat t.format.fractionalBits) := by
  rw [roundTo, if_pos hx, Binary64.scaled_eq_halfUp]

/-- A value is made with the type that it is asked for. -/
theorem type_of_roundTo {t : ValueType} {x : Binary64} {v : Fixed} (h : roundTo t x = .ok v) :
    v.type = t := by
  rw [roundTo] at h
  split at h
  · exact (Fixed.ofRaw_eq_ok_iff.mp h).1
  · simp at h

theorem rounds_of_roundTo {t : ValueType} {x : Binary64} {v : Fixed} (h : roundTo t x = .ok v) :
    v.Rounds t.format x.toRat := by
  by_cases hx : x.isFinite
  · rw [roundTo_of_isFinite hx] at h
    exact Fixed.rounds_of_ofRaw h
  · rw [roundTo, if_neg hx] at h
    simp at h

/-- Binding is rounding in the type of the format. -/
theorem runOn_bind_of_typeFor {b : Binder} {d : Descriptor} {x : Binary64}
    {cache : Cache ValueType} {t : ValueType} (h : ((b.typeFor d).runOn cache).1 = .ok t) :
    ((b.bind d x).runOn cache).1 = roundTo t x := by
  rw [bind, bindNumber, Binding.runOn_bind_of_fst, h]
  rfl

/-- On a reachable cache binding gives the rounding to the format that was asked for. -/
theorem ensures_bind (b : Binder) (f : Format) (x : Binary64) :
    Binding.Ensures Reached (b.bind f x) (·.Rounds f x.toRat) := by
  apply Binding.Ensures.bind (ensures_typeFor b f)
  rintro t rfl
  exact .of fun v hv => rounds_of_roundTo hv

end Binder

end BinaryPoint
