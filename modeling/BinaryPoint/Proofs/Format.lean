import BinaryPoint.Proofs.Faults

/-! # Making and writing formats

A format is made from parts of unknown type just if they are of the types that it takes, and
it is written, in its key and in the name of its type, just if its widths are not too long.
-/

namespace BinaryPoint.Format

open Decimal (Short)

/-! ## Formats from unchecked parts -/

theorem checkSigned_eq_ok {v : Datum} {b : Bool} : checkSigned v = .ok b ↔ v = .bool b := by
  constructor
  · intro h
    unfold checkSigned at h
    split at h
    · cases h
      rfl
    · simp at h
  · rintro rfl
    rfl

/-- A width is a natural number, and no double. -/
theorem checkWidth_eq_ok {field : WidthField} {v : Datum} {n : Nat} :
    checkWidth field v = .ok n ↔ v = .int n := by
  constructor
  · intro h
    unfold checkWidth at h
    split at h
    · split at h
      · simp at h
      · next hnonneg =>
        cases h
        rw [Int.toNat_of_nonneg (Int.not_lt.mp hnonneg)]
    · simp at h
  · rintro rfl
    rw [checkWidth, if_neg (Int.not_lt.mpr (Int.natCast_nonneg n)), Int.toNat_natCast]

/-- The parts of a format are a truth value and two natural numbers. -/
theorem ofParts_eq_ok {s i r : Datum} {f : Format} :
    ofParts s i r = .ok f ↔
      s = .bool f.signed ∧ i = .int f.integerBits ∧ r = .int f.fractionalBits := by
  simp only [ofParts, bind_eq_ok, checkSigned_eq_ok, checkWidth_eq_ok, Except.ok.injEq]
  constructor
  · rintro ⟨s, rfl, i, rfl, r, rfl, rfl⟩
    exact ⟨rfl, rfl, rfl⟩
  · rintro ⟨rfl, rfl, rfl⟩
    exact ⟨_, rfl, _, rfl, _, rfl, rfl⟩

/-! ## Formats that can be written -/

/-- A format whose widths can be written. -/
def Writable (f : Format) : Prop := Short f.integerBits ∧ Short f.fractionalBits

variable {f : Format}

theorem exists_typeName?_iff : (∃ name, f.typeName? = some name) ↔ f.Writable := by
  unfold Writable
  simp only [← Decimal.exists_write?_iff, typeName?, Option.bind_eq_bind, Option.bind_eq_some_iff,
    Option.some.injEq]
  constructor
  · rintro ⟨name, i, hi, r, hr, -⟩
    exact ⟨⟨i, hi⟩, r, hr⟩
  · rintro ⟨⟨i, hi⟩, r, hr⟩
    exact ⟨_, i, hi, r, hr, rfl⟩

theorem exists_typeNameText_iff : (∃ name, f.typeNameText = .ok name) ↔ f.Writable := by
  rw [← exists_typeName?_iff]
  unfold typeNameText
  generalize f.typeName? = name
  cases name <;> simp

theorem Writable.exists_key? (h : f.Writable) : ∃ key, f.key? = some key := by
  obtain ⟨i, hi⟩ := Decimal.exists_write?_iff.mpr h.1
  obtain ⟨r, hr⟩ := Decimal.exists_write?_iff.mpr h.2
  simp [key?, hi, hr]

theorem Writable.exists_keyText (h : f.Writable) : ∃ s, f.keyText = .ok s := by
  obtain ⟨key, hkey⟩ := h.exists_key?
  unfold keyText
  rw [hkey]
  exact ⟨key, rfl⟩

end BinaryPoint.Format

namespace BinaryPoint.Binder

/-- A binder makes the type of a format that is within its limit, within the range of doubles
and can be written. -/
theorem exists_synthesize_iff {b : Binder} {f : Format} :
    (∃ t, b.synthesize f = .ok t) ↔
      exceeds f.width b.limit = .ok false ∧ f.integerBits < 1024 ∧ f.Writable := by
  rw [← Format.exists_typeNameText_iff, synthesize]
  cases hexceeds : exceeds f.width b.limit with
  | error e => simp
  | ok tooWide =>
    cases tooWide with
    | true => simp
    | false =>
      by_cases hbounded : f.integerBits < 1024
      · simp [hbounded, bind_eq_ok]
      · simp [hbounded]

end BinaryPoint.Binder
