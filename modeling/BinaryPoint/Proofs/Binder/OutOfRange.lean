import BinaryPoint.Proofs.Arithmetic
import BinaryPoint.Proofs.Binder.Made
import BinaryPoint.Proofs.Binder.RoundTrips

/-! # Results out of range

Every operation that makes a value rounds to a scaled integer first, and refuses that if it is out
of range. The refusal names the number in question: as a double, or where there is none as the
scaled integer in decimal. If that is too long to be written, the refusal cannot be worded, and
another fault takes its place.

* `Attempt`: what each operation rounds to;
* `Attempt.valueOf_lt`, `Attempt.abs_raw_le`: how far out of range that can be;
* `out_of_range_refused`: binding, reformatting and the other sign never ask for too much; a sum,
  a difference or a product may, but not in a format of at most 13261 bits.

The bound is that of products. A result is below `2^(2I + F)` in units of the step, where `I` is
at most 1023, and `2^14284` is the last power of two with 4300 digits.
-/

namespace BinaryPoint

/-- `2^14284` is the greatest power of two that is not too long to be written. -/
theorem Decimal.short_of_le {n : ℤ} {k : ℕ} (hk : k ≤ 14284) (h : |n| ≤ 2 ^ k) : Short n := by
  obtain ⟨bits, hbits, hlimit⟩ : ∃ bits, 14284 ≤ bits ∧ 2 ^ bits < writeLimit :=
    ⟨14284, le_rfl, by decide +kernel⟩
  have hn : n.natAbs ≤ 2 ^ k := by
    rw [Int.abs_eq_natAbs] at h
    exact_mod_cast h
  exact (hn.trans (Nat.pow_le_pow_right two_pos (hk.trans hbits))).trans_lt hlimit

namespace Format

variable {f : Format}

/-- The scaled integers of a format are as many bits long as its values. -/
theorem abs_raw_le {raw : ℤ} (h : f.Holds raw) :
    |raw| ≤ 2 ^ (f.integerBits + f.fractionalBits) := by
  have hpos : (0 : ℤ) < f.rawMax := by
    rw [rawMax]
    positivity
  obtain ⟨hmin, hmax⟩ := h
  rw [rawMin] at hmin
  rw [abs_le, ← rawMax]
  split at hmin <;> omega

end Format

namespace Binder

variable {b : Binder} {cache : Cache ValueType} {f : Format} {t : ValueType} {u v : Fixed}
  {x : Binary64} {outcome : Except Fault Fixed} {raw : ℤ} {operands : ℕ}

/-- A scaled integer that is refused in another way is one whose refusal cannot be worded. -/
theorem ofRaw_of_not_failsAs (hraw : ¬ t.format.Holds raw)
    (h : ¬ FailsAs .valueOutOfRange (Fixed.ofRaw t raw)) :
    Fixed.ofRaw t raw = .error .integerTooLong := by
  rw [Fixed.ofRaw_of_not_holds hraw, refuse, Fault.settled] at h ⊢
  split at h
  · simp [Fault.kind] at h
  · next hnone => rw [if_neg hnone]

/-! ## Operations -/

/-- The operations that make a value: with how many operands, what comes of it, and the type and
the scaled integer that it is rounded to. -/
inductive Attempt : ℕ → Except Fault Fixed → ValueType → ℤ → Prop
  | bind {b : Binder} {cache : Cache ValueType} {f : Format} {t : ValueType} {x : Binary64} :
      Reached cache → ((b.typeFor f).runOn cache).1 = .ok t → x.isFinite →
      Attempt 1 ((b.bind f x).runOn cache).1 t (x.scaled f.fractionalBits)
  | reformat {b : Binder} {cache : Cache ValueType} {f : Format} {t : ValueType} {v : Fixed} :
      Reached cache → ((b.typeFor f).runOn cache).1 = .ok t → Made v →
      Attempt 1 ((b.reformat v f).runOn cache).1 t
        (shiftRound v.raw ((v.format.fractionalBits : ℤ) - f.fractionalBits))
  | neg {v : Fixed} : Made v → Attempt 1 v.neg v.type (-v.raw)
  | add {u v : Fixed} : Made u → Made v → v.format = u.format →
      Attempt 2 (u.add v) u.type (u.raw + v.raw)
  | sub {u v : Fixed} : Made u → Made v → v.format = u.format →
      Attempt 2 (u.sub v) u.type (u.raw - v.raw)
  | mul {u v : Fixed} : Made u → Made v → v.format = u.format →
      Attempt 2 (u.mul v) u.type (shiftRound (u.raw * v.raw) u.format.fractionalBits)

theorem shiftRound_mul (h : v.format = u.format) :
    shiftRound (u.raw * v.raw) u.format.fractionalBits =
      halfUp (u.toRat * v.toRat) u.format.fractionalBits := by
  rw [← Fixed.product_eq_halfUp h, Fixed.product, shiftRound_eq_floor, zpow_neg, zpow_natCast,
    Int.cast_mul, ← div_eq_mul_inv]

/-- Whatever the operation, the value is made of the scaled integer, with a type whose format can
be written. -/
theorem Attempt.eq_ofRaw (h : Attempt operands outcome t raw) :
    outcome = Fixed.ofRaw t raw ∧ t.format.Writable := by
  cases h with
  | @bind b cache f t x hcache ht hx =>
    obtain rfl : t.format = f := (ensures_typeFor b f cache hcache).2 t ht
    -- a type that a binder gave is of the format that it was asked for
    refine ⟨?_, (ensures_writable b t.format cache hcache.legible).2 t ht⟩
    rw [runOn_bind_of_typeFor ht, roundTo, if_pos hx]
  | @reformat b cache f t v hcache ht hv =>
    obtain rfl : t.format = f := (ensures_typeFor b f cache hcache).2 t ht
    refine ⟨?_, (ensures_writable b t.format cache hcache.legible).2 t ht⟩
    rw [runOn_reformat_of_typeFor ht, Fixed.shiftRound_raw]
  | neg hv => exact ⟨rfl, hv.writable⟩
  | add hu _ h => exact ⟨Fixed.add_eq h, hu.writable⟩
  | sub hu _ h => exact ⟨Fixed.sub_eq h, hu.writable⟩
  | @mul u v hu _ h =>
    refine ⟨?_, hu.writable⟩
    -- the product is rounded half up, as a shift does
    rw [Fixed.mul_eq h, Fixed.product_eq_halfUp h, shiftRound_mul h]

theorem Attempt.one_or_two (h : Attempt operands outcome t raw) : operands = 1 ∨ operands = 2 := by
  cases h <;> simp

/-! ## How far out of range -/

/-- With one operand the number is the rounding of one in the range of doubles. -/
theorem Attempt.valueOf_lt (h : Attempt 1 outcome t raw) :
    |t.format.valueOf raw| < Binary64.overflow := by
  cases h with
  | @bind b cache f t x hcache ht hx =>
    obtain rfl : t.format = f := (ensures_typeFor b f cache hcache).2 t ht
    rw [Binary64.scaled_eq_halfUp]
    exact (representable_halfUp (Binary64.representable_toRat x) _).abs_lt
  | @reformat b cache f t v hcache ht hv =>
    obtain rfl : t.format = f := (ensures_typeFor b f cache hcache).2 t ht
    rw [Fixed.shiftRound_raw]
    exact (v.covers_toRat.halfUp t.format.fractionalBits).abs_lt v.type.bounded
  | @neg v hv =>
    have hneg : v.type.format.valueOf (-v.raw) = -v.toRat := v.type.format.valueOf_neg v.raw
    rw [hneg, abs_neg]
    exact v.covers_toRat.abs_lt v.type.bounded

/-- The scaled integer of a sum or a difference is not above twice the greatest one. -/
theorem abs_add_abs_le (h : v.format = u.format) :
    |u.raw| + |v.raw| ≤ 2 ^ (u.format.integerBits + u.format.fractionalBits + 1) := by
  have hu := Format.abs_raw_le u.holds
  have hv := Format.abs_raw_le (h ▸ v.holds : u.format.Holds v.raw)
  rw [pow_succ]
  exact (add_le_add hu hv).trans_eq (mul_two _).symm

/-- That of a product is not above the one of the product of the greatest values. -/
theorem abs_product_le (h : v.format = u.format) :
    |u.product v| ≤
      2 ^ (u.format.integerBits + u.format.fractionalBits + u.format.integerBits) := by
  -- both factors are below the power of two of the integer bits
  have hu : |u.toRat| ≤ 2 ^ u.format.integerBits :=
    abs_le.mpr ⟨u.format.neg_le_lowest.trans u.covers_toRat.1, u.covers_toRat.2⟩
  have hv : |v.toRat| ≤ 2 ^ u.format.integerBits :=
    h ▸ abs_le.mpr ⟨v.format.neg_le_lowest.trans v.covers_toRat.1, v.covers_toRat.2⟩
  rw [Fixed.product_eq_halfUp h]
  apply abs_halfUp_le
  calc |u.toRat * v.toRat * 2 ^ u.format.fractionalBits|
      = |u.toRat| * |v.toRat| * 2 ^ u.format.fractionalBits := by
        rw [abs_mul, abs_mul, abs_of_pos (by positivity : (0 : ℚ) < 2 ^ u.format.fractionalBits)]
    _ ≤ 2 ^ u.format.integerBits * 2 ^ u.format.integerBits * 2 ^ u.format.fractionalBits := by
        gcongr
    _ = ((2 ^ (u.format.integerBits + u.format.fractionalBits + u.format.integerBits) : ℤ) : ℚ) := by
        push_cast
        ring

/-- With two operands the scaled integer is at most 1023 bits longer than the values. -/
theorem Attempt.abs_raw_le (h : Attempt 2 outcome t raw) :
    |raw| ≤ 2 ^ (t.format.integerBits + t.format.fractionalBits + 1023) := by
  have hbounded : t.format.integerBits ≤ 1023 := Nat.lt_succ_iff.mp t.bounded
  have hpow {k : ℕ} (hk : k ≤ 1023) :
      (2 : ℤ) ^ (t.format.integerBits + t.format.fractionalBits + k) ≤
        2 ^ (t.format.integerBits + t.format.fractionalBits + 1023) :=
    pow_le_pow_right₀ one_le_two (by omega)
  cases h with
  | add _ _ h => exact ((abs_add_le _ _).trans (abs_add_abs_le h)).trans (hpow (by decide))
  | sub _ _ h => exact ((abs_sub _ _).trans (abs_add_abs_le h)).trans (hpow (by decide))
  | mul _ _ h =>
    rw [shiftRound_mul h, ← Fixed.product_eq_halfUp h]
    exact (abs_product_le h).trans (hpow hbounded)

/-! ## The refusal -/

/-- **Results out of range are refused as that**, unless they cannot be named: if the number is
beyond the range of doubles and the scaled integer has more than 4300 digits, the fault says that
an integer is too long. This happens to no operation with one operand, and to none in a format of
at most 13261 bits, whatever the limits of the binders that made the operands. -/
theorem out_of_range_refused (h : Attempt operands outcome t raw) (hraw : ¬ t.format.Holds raw) :
    (FailsAs .valueOutOfRange outcome ↔
      |t.format.valueOf raw| < Binary64.overflow ∨ Decimal.Short raw) ∧
    (¬ FailsAs .valueOutOfRange outcome → outcome = .error .integerTooLong) ∧
    (operands = 1 ∨ t.format.integerBits + t.format.fractionalBits ≤ 13261 →
      FailsAs .valueOutOfRange outcome) := by
  obtain ⟨hofRaw, hwritable⟩ := h.eq_ofRaw
  have hworded := failsAs_ofRaw_iff_worded hwritable hraw
  rw [hofRaw]
  refine ⟨hworded, ofRaw_of_not_failsAs hraw, fun hsmall => hworded.mpr ?_⟩
  rcases h.one_or_two with rfl | rfl
  · exact .inl h.valueOf_lt
  · have hbits := hsmall.resolve_left (by decide)
    exact .inr (Decimal.short_of_le (Nat.add_le_add_right hbits 1023) h.abs_raw_le)

/-- The greatest power of two among the doubles, twice: the sum is beyond the doubles and is
refused as an integer. -/
theorem out_of_range_refused_widest :
    let widest : Format := ⟨false, 1023, 0⟩
    let v : Fixed := ⟨⟨widest, 0, by decide⟩, 2 ^ 1023, by decide +kernel⟩
    Made v ∧ ¬ widest.Holds (v.raw + v.raw) ∧ FailsAs .valueOutOfRange (v.add v) := by
  intro widest v
  have hv : Made v := .bound (f := widest) (x := .powerOfTwo 1023)
    ⟨⟨.int 1024, 0⟩, {}, .empty, eq_ok_of_toOption (by decide +kernel)⟩
  have hraw : ¬ widest.Holds (v.raw + v.raw) := by decide +kernel
  exact ⟨hv, hraw, (out_of_range_refused (.add hv hv rfl) hraw).2.2 (.inr (by decide))⟩

/-- Not every result out of range is refused as that: the same number with 12239 fractional bits
has a product with itself of `2^14285` in units of the step, an integer of 4301 digits. -/
theorem not_forall_out_of_range_refused :
    ¬ ∀ (operands : ℕ) (outcome : Except Fault Fixed) (t : ValueType) (raw : ℤ),
      Attempt operands outcome t raw → ¬ t.format.Holds raw →
        FailsAs .valueOutOfRange outcome := by
  intro hall
  -- the greatest power of two that is a double, with so many fractional bits that its square, as a
  -- scaled integer, has no decimal text
  let fine : Format := ⟨false, 1023, 12239⟩
  let v : Fixed := ⟨⟨fine, 0, by decide⟩, 2 ^ 13262, by decide +kernel⟩
  have hv : Made v := .bound (f := fine) (x := .powerOfTwo 1023)
    ⟨⟨.int 20000, 0⟩, {}, .empty, eq_ok_of_toOption (by decide +kernel)⟩
  have hattempt := Attempt.mul hv hv rfl
  generalize hproduct : shiftRound (v.raw * v.raw) v.format.fractionalBits = raw at hattempt
  have hraw : ¬ fine.Holds raw := by
    rw [← hproduct]
    decide +kernel
  have hnone : Fault.describeRaw? raw fine.fractionalBits = none := by
    rw [← hproduct]
    decide +kernel
  -- the refusal cannot be worded, so it is not the one that is promised
  have hfails := hall _ _ _ _ hattempt hraw
  rw [hattempt.eq_ofRaw.1, failsAs_ofRaw_iff_worded hv.writable hraw] at hfails
  obtain ⟨text, htext⟩ := (exists_describeRaw?_iff hv.writable.2).mpr hfails
  cases hnone.symm.trans htext

end Binder

end BinaryPoint
