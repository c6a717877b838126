import BinaryPoint.Proofs.Faults
import BinaryPoint.Proofs.Fixed

/-! # The faults of binding

A binder with a limit that is a number refuses formats and values with reported faults. Each
of them names the format, so that it can be worded unless the width of the format is itself
too long to be written. The value that a fault names can always be written: it is a rounding
of a double, and so a double.

* `atWorst_bind`: the faults of binding a double to a format;
* `atWorst_reformat`: those of rounding a value to another format.
-/

namespace BinaryPoint

/-! ## Wordings -/

/-- The reported faults, and that a number is too long to be written where the width of the
format is. -/
def Format.Refuses (f : Format) (g : Fault) : Prop :=
  g.reported ∨ g = .integerTooLong ∧ Decimal.writeLimit ≤ f.width

namespace Format

variable {f : Format}

/-- Each width is within the width of the format. -/
theorem exists_widths (h : f.width < Decimal.writeLimit) :
    (∃ i, Decimal.write? f.integerBits = some i) ∧
      ∃ r, Decimal.write? f.fractionalBits = some r := by
  rw [width] at h
  exact ⟨Decimal.exists_write? (by omega), Decimal.exists_write? (by omega)⟩

theorem exists_key? (h : f.width < Decimal.writeLimit) : ∃ key, f.key? = some key := by
  obtain ⟨⟨i, hi⟩, r, hr⟩ := exists_widths h
  simp [key?, hi, hr]

theorem exists_typeName? (h : f.width < Decimal.writeLimit) :
    ∃ name, f.typeName? = some name := by
  obtain ⟨⟨i, hi⟩, r, hr⟩ := exists_widths h
  simp [typeName?, hi, hr]

/-- A reported fault that can be worded if the width can be written. -/
theorem atWorst_refuse {α : Type} {g : Fault} (hreported : g.reported)
    (hworded : f.width < Decimal.writeLimit → g.message?.isSome) :
    AtWorst f.Refuses (refuse g : Except Fault α) := by
  apply AtWorst.refuse
  rw [Fault.settled]
  split
  · exact .inl hreported
  · next hnone => exact .inr ⟨rfl, not_lt.mp fun h => hnone (hworded h)⟩

theorem atWorst_typeNameText : AtWorst f.Refuses f.typeNameText := by
  unfold typeNameText
  cases hname : f.typeName? with
  | some name => exact .ok name
  | none =>
    rintro _ ⟨⟩
    refine .inr ⟨rfl, not_lt.mp fun h => ?_⟩
    obtain ⟨name, hsome⟩ := exists_typeName? h
    cases hname.symm.trans hsome

end Format

/-- A scaled integer that stands for a double is described by that. -/
theorem Fault.exists_describeRaw? {raw : ℤ} {bits : ℕ}
    (h : Binary64.Representable ((raw : ℚ) / 2 ^ bits)) :
    ∃ value, describeRaw? raw bits = some value := by
  have hcast : (raw : ℚ) / 2 ^ bits = (raw : ℚ) / ((2 ^ bits : ℕ) : ℚ) := by push_cast; rfl
  have hlt := h.abs_lt
  rw [hcast] at hlt
  have hfinite := Binary64.isFinite_nearest (by positivity) hlt
  rw [Binary64.nearest] at hfinite
  exact ⟨_, if_pos hfinite⟩

namespace Binder

open Binding (Ensures)

/-! ## Types -/

/-- The limit of the binder is a positive integer or a double. -/
def Limited (b : Binder) : Prop := (∃ n, b.limit = .int n ∧ 1 ≤ n) ∨ ∃ x, b.limit = .real x

/-- A limit that a width exceeds is written with no more digits than the width. -/
theorem Limited.exceeds {b : Binder} (h : b.Limited) (width : ℕ) :
    ∃ tooWide, exceeds width b.limit = .ok tooWide ∧
      (tooWide → width < Decimal.writeLimit → ∃ limit, b.limit.plain? = some limit) := by
  rcases h with ⟨n, hn, hpos⟩ | ⟨x, hx⟩
  · rw [hn]
    refine ⟨_, rfl, fun hgt hwidth => ?_⟩
    have hcompare : compare (width : ℤ) n = .gt := by
      simpa [Datum.Number.compare?] using hgt
    have hlt := compare_gt_iff_gt.mp hcompare
    rw [Datum.plain?_int]
    exact Decimal.exists_write? (by omega)
  · rw [hx]
    exact ⟨_, rfl, fun _ _ => ⟨_, rfl⟩⟩

variable {b : Binder}

theorem atWorst_synthesize (h : b.Limited) (f : Format) : AtWorst f.Refuses (b.synthesize f) := by
  obtain ⟨tooWide, hexceeds, hlimit⟩ := h.exceeds f.width
  rw [synthesize, hexceeds]
  cases tooWide with
  | true =>
    -- too wide for the limit: worded if the width can be written
    apply Format.atWorst_refuse (g := .tooWide f b.limit) rfl
    intro hwidth
    obtain ⟨key, hkey⟩ := Format.exists_key? hwidth
    obtain ⟨width, hwritten⟩ := Decimal.exists_write? (n := f.width) hwidth
    obtain ⟨limit, hplain⟩ := hlimit rfl hwidth
    simp [Fault.message?, hkey, hwritten, hplain]
  | false =>
    simp only [ok_bind, Bool.false_eq_true, if_false]
    split
    · exact Format.atWorst_typeNameText.bind fun name _ => .ok _
    · -- too wide for doubles
      apply Format.atWorst_refuse rfl
      intro hwidth
      obtain ⟨key, hkey⟩ := Format.exists_key? hwidth
      simp [Fault.message?, hkey]

/-- A type that is there is returned, and one that is not is made. -/
theorem atWorst_typeFor {P : Cache ValueType → Prop} (h : b.Limited) (f : Format) :
    Binding.AtWorst P f.Refuses (b.typeFor f) := by
  intro cache _
  show AtWorst f.Refuses ((b.typeForFormat f).runOn cache).1
  cases hget : cache.get? f with
  | some t =>
    rw [runOn_typeForFormat_of_some b hget]
    exact .ok t
  | none =>
    -- what is refused here is what making the type refuses
    have hmake := atWorst_synthesize h f
    rw [runOn_typeForFormat_of_none b hget]
    cases hrun : b.synthesize f with
    | ok t => exact .ok t
    | error e =>
      rintro _ ⟨⟩
      exact hmake e hrun

/-! ## Values -/

/-- A double that is not in the range of a type is refused, in words. -/
theorem atWorst_roundTo (t : ValueType) (x : Binary64) :
    AtWorst t.format.Refuses (roundTo t x) := by
  by_cases hx : x.isFinite
  · rw [roundTo_of_isFinite hx, Fixed.ofRaw]
    split
    · exact .ok _
    · -- the scaled integer that is out of range is a rounding, so a double describes it
      apply Format.atWorst_refuse rfl
      intro hwidth
      obtain ⟨key, hkey⟩ := Format.exists_key? hwidth
      have hrounded := representable_halfUp (Binary64.representable_toRat x) t.format.fractionalBits
      obtain ⟨value, hvalue⟩ := Fault.exists_describeRaw? hrounded
      simp [Fault.message?, hkey, hvalue]
  · -- an infinity or no number is named as it is
    rw [roundTo, if_neg hx]
    apply Format.atWorst_refuse rfl
    intro hwidth
    obtain ⟨key, hkey⟩ := Format.exists_key? hwidth
    simp [Fault.message?, hkey]

theorem atWorst_bind (h : b.Limited) (f : Format) (x : Binary64) :
    Binding.AtWorst Reached f.Refuses (b.bind f x) := by
  apply Binding.AtWorst.bind (atWorst_typeFor h f) (ensures_typeFor b f)
  rintro t rfl
  exact .of (atWorst_roundTo t x)

/-- A value that is a double is rounded as that double. -/
theorem atWorst_reformat (h : b.Limited) (f : Format) {v : Fixed}
    (hv : Binary64.Representable v.toRat) : Binding.AtWorst Reached f.Refuses (b.reformat v f) := by
  rw [reformat_eq_bind hv]
  exact atWorst_bind h f (unbind v)

end Binder

end BinaryPoint
