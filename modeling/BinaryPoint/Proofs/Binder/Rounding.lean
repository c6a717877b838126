import BinaryPoint.Proofs.Binary64.Monotone
import BinaryPoint.Proofs.Binder.Answers
import BinaryPoint.Proofs.Binder.Faults
import BinaryPoint.Proofs.Format

/-! # Rounding to a format

A format that has a type can be written, so a fault that names it can be worded. With this
all outcomes of binding are known:

* `failsAs_ofRaw_iff_worded`: when the refusal of a scaled integer can be worded;
* `exists_roundTo_iff`, `failsAs_roundTo_iff`: a double is rounded to a type just if its rounding
  is in range, and else it is refused as out of range, in words;
* `bind_rounds`: the range told in numbers, and the scaled integer as the nearest one.
-/

namespace BinaryPoint.Binder

variable {b : Binder} {cache : Cache ValueType} {f : Format} {t : ValueType} {raw : ℤ}

/-! ## Formats that have a type -/

/-- Each format with a type can be written. -/
def Legible (cache : Cache ValueType) : Prop := ∀ f t, cache.get? f = some t → f.Writable

theorem writable_of_synthesize (h : b.synthesize f = .ok t) : f.Writable :=
  (exists_synthesize_iff.mp ⟨t, h⟩).2.2

theorem Legible.of_answer (hcache : Legible cache) (h : b.answer cache f = .ok t) :
    f.Writable := by
  rw [answer] at h
  split at h
  · next t' hget => exact hcache f t' hget
  · exact writable_of_synthesize h

/-- A request for a type returns only for a format that can be written. -/
theorem ensures_writable (b : Binder) (f : Format) :
    Binding.Ensures Legible (b.typeFor f) fun _ => f.Writable := by
  intro cache hcache
  refine ⟨fun g t hget => ?_, fun t ht => ?_⟩
  · -- what is kept then would have been the answer before
    have hagrees := agrees_typeForFormat b f cache g
    have hanswer : b.answer ((b.typeForFormat f).runOn cache).2 g = .ok t := by
      unfold answer
      rw [show ((b.typeForFormat f).runOn cache).2.get? g = some t from hget]
    exact hcache.of_answer (hagrees ▸ hanswer)
  · exact hcache.of_answer ((runOn_typeForFormat_fst b f cache).symm.trans ht)

theorem legible_empty : Legible {} := fun f t hget => by simp at hget

theorem Reached.legible (h : Reached cache) : Legible cache := by
  induction h with
  | empty => exact legible_empty
  | request b d _ ih =>
    cases d with
    | format f => exact (ensures_writable b f _ ih).1
    | other v => exact ih

/-! ## One type -/

theorem exists_roundTo_iff {x : Binary64} :
    (∃ v, roundTo t x = .ok v) ↔
      x.isFinite ∧ t.format.Holds (halfUp x.toRat t.format.fractionalBits) := by
  by_cases hx : x.isFinite
  · rw [roundTo_of_isFinite hx, Fixed.exists_ofRaw_iff]
    exact (and_iff_right hx).symm
  · rw [roundTo, if_neg hx]
    simp [hx]

/-- A scaled integer is described by the double nearest to its number, or if there is none by
itself. -/
theorem exists_describeRaw?_iff (hbits : Decimal.Short f.fractionalBits) :
    (∃ text, Fault.describeRaw? raw f.fractionalBits = some text) ↔
      |f.valueOf raw| < Binary64.overflow ∨ Decimal.Short raw := by
  obtain ⟨bits, hwritten⟩ := Decimal.exists_write?_iff.mpr hbits
  -- the double that describes it is the one nearest to its number
  have hcast : f.valueOf raw = (raw : ℚ) / ((2 ^ f.fractionalBits : ℕ) : ℚ) := by
    rw [Format.valueOf]
    push_cast
    rfl
  have hfinite := Binary64.isFinite_nearest_iff (n := raw) (Nat.two_pow_pos f.fractionalBits)
  rw [hcast, ← hfinite, ← Decimal.exists_write?_iff, Fault.describeRaw?,
    ← Binary64.nearest]
  split
  · next h => simp [h]
  · next h =>
    -- there is none, and what remains is to write the integer in digits
    rw [eq_false h, false_or]
    simp only [hwritten, Option.bind_eq_bind, Option.bind_some, Option.bind_eq_some_iff,
      Option.some.injEq]
    constructor
    · rintro ⟨text, r, hr, -⟩
      exact ⟨r, hr⟩
    · rintro ⟨r, hr⟩
      exact ⟨_, r, hr, rfl⟩

/-- A scaled integer out of range is refused as that just if its number is in the range of doubles
or the integer itself is not too long. -/
theorem failsAs_ofRaw_iff_worded (ht : t.format.Writable) (hraw : ¬ t.format.Holds raw) :
    FailsAs .valueOutOfRange (Fixed.ofRaw t raw) ↔
      |t.format.valueOf raw| < Binary64.overflow ∨ Decimal.Short raw := by
  obtain ⟨key, hkey⟩ := ht.exists_key?
  rw [Fixed.ofRaw_of_not_holds hraw, ← exists_describeRaw?_iff ht.2, refuse, failsAs_error,
    Fault.settled]
  cases hdescribed : Fault.describeRaw? raw t.format.fractionalBits with
  | none => simp [Fault.message?, hdescribed, Fault.kind]
  | some text => simp [Fault.message?, hdescribed, hkey, Fault.kind]

/-- Up to the overflow, a scaled integer is refused as out of range just if it is. -/
theorem failsAs_ofRaw_iff (ht : t.format.Writable)
    (hraw : |t.format.valueOf raw| < 2 ^ (1024 : ℤ) - 2 ^ (970 : ℤ)) :
    FailsAs .valueOutOfRange (Fixed.ofRaw t raw) ↔ ¬ t.format.Holds raw := by
  by_cases h : t.format.Holds raw
  · rw [Fixed.ofRaw, dif_pos h]
    simp [h]
  · exact iff_of_true ((failsAs_ofRaw_iff_worded ht h).mpr (.inl hraw)) h

/-- A double that is not rounded to a value is out of range: it is infinite or no number, or
its rounding, which is a double itself, is beyond the range. Both can be worded. -/
theorem failsAs_roundTo_iff (ht : t.format.Writable) {x : Binary64} :
    FailsAs .valueOutOfRange (roundTo t x) ↔
      ¬ (x.isFinite ∧ t.format.Holds (halfUp x.toRat t.format.fractionalBits)) := by
  by_cases hx : x.isFinite
  · have hrounded := representable_halfUp (Binary64.representable_toRat x) t.format.fractionalBits
    rw [roundTo_of_isFinite hx, failsAs_ofRaw_iff ht hrounded.abs_lt]
    simp [hx]
  · obtain ⟨key, hkey⟩ := ht.exists_key?
    rw [roundTo, if_neg hx, refuse_of_worded (by simp [Fault.message?, hkey])]
    simp [Fault.kind, hx]

/-! ## Binding -/

/-- **Binding rounds to the nearest value, a tie going up.** Where a format has a type, a double
is bound to it just if it is not more than half a step outside its range, the lower tie being
accepted and the upper one not. The value has the one scaled integer next to the double. All
other doubles are refused as out of range, among them the infinite ones and NaN. -/
theorem bind_rounds (hcache : Reached cache) (ht : ((b.typeFor f).runOn cache).1 = .ok t)
    (x : Binary64) :
    let result := ((b.bind f x).runOn cache).1
    let accepted := x.isFinite ∧
      f.lowest - f.halfStep ≤ x.toRat ∧ x.toRat < 2 ^ f.integerBits + f.halfStep
    ((∃ v, result = .ok v) ↔ accepted) ∧
    (FailsAs .valueOutOfRange result ↔ ¬ accepted) ∧
    ∀ v, result = .ok v → v.format = f ∧ ∀ k : ℤ, v.raw = k ↔
      (k : ℚ) - 1 / 2 ≤ x.toRat * 2 ^ f.fractionalBits ∧
        x.toRat * 2 ^ f.fractionalBits < k + 1 / 2 := by
  intro result accepted
  -- A type that was given is of the format that was asked for, and can be named in messages.
  have hwritable : f.Writable := (ensures_writable b f cache hcache.legible).2 t ht
  obtain rfl : t.format = f := (ensures_typeFor b f cache hcache).2 t ht
  have hresult : result = roundTo t x := runOn_bind_of_typeFor ht
  rw [hresult, exists_roundTo_iff, failsAs_roundTo_iff hwritable, Format.holds_halfUp_iff]
  refine ⟨Iff.rfl, Iff.rfl, ?_⟩
  intro v hv
  obtain ⟨hformat, hraw⟩ := rounds_of_roundTo hv
  refine ⟨hformat, fun k => ?_⟩
  rw [hraw, halfUp_eq_iff]

/-- Quarters from minus two to two: the tie below is rounded into the range and the tie above
out of it. -/
theorem bind_rounds_ties :
    let quarters : Format := ⟨true, 1, 2⟩
    let run (x : Binary64) := (((⟨.int 1024, 0⟩ : Binder).bind quarters x).runOn {}).1
    (∃ v, run (.ofRatio true 17 8) = .ok v ∧ v.raw = -8) ∧
      FailsAs .valueOutOfRange (run (.ofRatio false 17 8)) := by
  intro quarters run
  have ht : (((⟨.int 1024, 0⟩ : Binder).typeFor quarters).runOn {}).1 =
      .ok ⟨quarters, 0, by decide⟩ := eq_ok_of_toOption (by decide +kernel)
  constructor
  · obtain ⟨haccepted, -, hnearest⟩ := bind_rounds .empty ht (.ofRatio true 17 8)
    obtain ⟨v, hv⟩ := haccepted.mpr (by decide +kernel)
    exact ⟨v, hv, ((hnearest v hv).2 (-8)).mpr (by decide +kernel)⟩
  · exact (bind_rounds .empty ht (.ofRatio false 17 8)).2.1.mpr (by decide +kernel)

end BinaryPoint.Binder
