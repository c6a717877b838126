import BinaryPoint.Proofs.Range

/-! # Arithmetic on values of one format

A sum, a difference and a value with the other sign are exact, and a product is rounded half up
as any number is (`mul_eq`). Each of them is made just if it is in the range of the format, both
ends of which are values. So there is more room than in an integer type of the same width: in a
signed format every value has its negative, and in one without integer bits no product is out
of range.

* `ArithmeticLaws`, `arithmetic_laws`: when each operation returns, and the laws that hold then.

The two operands need not have the same type, only the same format. The result is of the type
of the first one.
-/

namespace BinaryPoint

namespace Format

theorem valueOf_add (d : Format) (m n : ℤ) : d.valueOf (m + n) = d.valueOf m + d.valueOf n := by
  simp only [valueOf]
  push_cast
  ring

theorem valueOf_neg (d : Format) (n : ℤ) : d.valueOf (-n) = -d.valueOf n := by
  simp only [valueOf]
  push_cast
  ring

/-- Every format holds one. -/
theorem holds_one (d : Format) : d.Holds (2 ^ d.fractionalBits) := by
  refine ⟨d.holds_zero.1.trans (by positivity), ?_⟩
  rw [rawMax, pow_add]
  exact le_mul_of_one_le_left (by positivity) (one_le_pow₀ (by norm_num))

/-- The range of a signed format is the same on both sides of zero. -/
theorem holds_neg {d : Format} (hd : d.signed) {raw : ℤ} (h : d.Holds raw) : d.Holds (-raw) := by
  obtain ⟨hmin, hmax⟩ := h
  rw [rawMin, if_pos hd] at hmin
  rw [Holds, rawMin, if_pos hd]
  omega

/-- Without a sign only zero has its negative in range. -/
theorem holds_neg_iff {d : Format} (hd : ¬ d.signed) {raw : ℤ} (h : d.Holds raw) :
    d.Holds (-raw) ↔ raw = 0 := by
  obtain ⟨hmin, hmax⟩ := h
  rw [rawMin, if_neg hd] at hmin
  rw [Holds, rawMin, if_neg hd]
  omega

/-- Without integer bits the range reaches to one, and products do not leave it. -/
theorem Covers.mul {d : Format} (hd : d.integerBits = 0) {q r : ℚ} (hq : d.Covers q)
    (hr : d.Covers r) : d.Covers (q * r) := by
  rw [Covers, lowest, hd, pow_zero] at *
  by_cases hsigned : d.signed
  · rw [if_pos hsigned] at *
    have habs : |q * r| ≤ 1 := by
      rw [abs_mul]
      exact mul_le_one₀ (abs_le.mpr hq) (abs_nonneg r) (abs_le.mpr hr)
    exact abs_le.mp habs
  · rw [if_neg hsigned] at *
    exact ⟨mul_nonneg hq.1 hr.1, mul_le_one₀ hq.2 hr.1 hr.2⟩

end Format

namespace Fixed

variable {a b v : Fixed} {t t' : ValueType} {raw : ℤ}

/-! ## Making values -/

/-- A value is made from a scaled integer just if the number that this stands for is in range,
and it has that number. -/
theorem ofRaw_exact {q : ℚ} (h : t.format.valueOf raw = q) :
    ((∃ v, ofRaw t raw = .ok v) ↔ t.format.Covers q) ∧
      ∀ v, ofRaw t raw = .ok v → v.format = t.format ∧ v.toRat = q := by
  constructor
  · rw [exists_ofRaw_iff, Format.holds_iff_covers, h]
  · intro v hv
    obtain ⟨rfl, rfl⟩ := ofRaw_eq_ok_iff.mp hv
    exact ⟨rfl, h⟩

/-- The types of one format make equal values of a scaled integer, and refuse it alike. -/
theorem ofRaw_alike (h : t'.format = t.format) :
    (∀ v, ofRaw t raw = .ok v → ∃ w, ofRaw t' raw = .ok w ∧ w.eq v) ∧
      ∀ e, ofRaw t raw = .error e → ofRaw t' raw = .error e := by
  constructor
  · intro v hv
    obtain ⟨rfl, rfl⟩ := ofRaw_eq_ok_iff.mp hv
    exact exists_ofRaw_eq h
  · intro e he
    by_cases hraw : t.format.Holds raw
    · rw [ofRaw, dif_pos hraw] at he
      cases he
    · rw [ofRaw_of_not_holds hraw] at he
      rw [ofRaw_of_not_holds (h ▸ hraw), h, he]

/-- The value one of a type. -/
def one (t : ValueType) : Fixed := ⟨t, 2 ^ t.format.fractionalBits, t.format.holds_one⟩

@[simp] theorem toRat_one : (one t).toRat = 1 := by
  simp [toRat_eq, one, format]

/-! ## The operations -/

theorem add_eq (h : b.format = a.format) : a.add b = ofRaw a.type (a.raw + b.raw) := by
  rw [add, operand, if_pos h]
  rfl

theorem sub_eq (h : b.format = a.format) : a.sub b = ofRaw a.type (a.raw - b.raw) := by
  rw [sub, operand, if_pos h]
  rfl

/-- The scaled integers of a sum and of a difference stand for the exact ones. -/
theorem valueOf_add (h : b.format = a.format) :
    a.type.format.valueOf (a.raw + b.raw) = a.toRat + b.toRat := by
  rw [Format.valueOf_add, toRat, toRat, h]
  rfl

theorem valueOf_sub (h : b.format = a.format) :
    a.type.format.valueOf (a.raw - b.raw) = a.toRat - b.toRat := by
  rw [sub_eq_add_neg, Format.valueOf_add, Format.valueOf_neg, toRat, toRat, h, sub_eq_add_neg]
  rfl

/-- The scaled integer of a product: the product of both, rounded half up. -/
def product (a b : Fixed) : ℤ := ⌊(a.raw * b.raw : ℚ) / 2 ^ a.format.fractionalBits + 1 / 2⌋

theorem mul_eq (h : b.format = a.format) : a.mul b = ofRaw a.type (a.product b) := by
  have hround : shiftRound (a.raw * b.raw) a.format.fractionalBits = a.product b := by
    rw [shiftRound_eq_floor, product, zpow_neg, zpow_natCast, Int.cast_mul, ← div_eq_mul_inv]
  rw [mul, operand, if_pos h, ← hround]
  rfl

/-- It is the rounding of the exact product. -/
theorem product_eq_halfUp (h : b.format = a.format) :
    a.product b = halfUp (a.toRat * b.toRat) a.format.fractionalBits := by
  rw [product, halfUp, toRat_eq, toRat_eq, h]
  congr 2
  field_simp

theorem product_comm (h : b.format = a.format) : b.product a = a.product b := by
  rw [product_eq_halfUp h, product_eq_halfUp h.symm, h, mul_comm]

/-- A product with one is the other factor. -/
theorem product_one (ht : t.format = a.format) : a.product (one t) = a.raw := by
  have hformat : (one t).format = a.format := ht
  rw [product_eq_halfUp hformat, toRat_one, mul_one, halfUp_toRat]

theorem product_of_toRat_eq_neg_one (hb : b.format = a.format) (hone : b.toRat = -1) :
    a.product b = -a.raw := by
  have hgrid : -a.toRat * 2 ^ a.format.fractionalBits = (-a.raw : ℤ) := by
    rw [toRat_eq]
    push_cast
    field_simp
  rw [product_eq_halfUp hb, hone, mul_neg_one, halfUp_of_eq hgrid]

theorem neg_eq_ok_iff : a.neg = .ok v ↔ v.type = a.type ∧ v.raw = -a.raw := ofRaw_eq_ok_iff

/-- A value of a signed format has its negative, of which it is the negative in turn. -/
theorem exists_neg (hsigned : a.format.signed) :
    ∃ n, a.neg = .ok n ∧ n.format = a.format ∧ n.toRat = -a.toRat ∧ n.neg = .ok a := by
  obtain ⟨n, hn⟩ : ∃ n, a.neg = .ok n := exists_ofRaw_iff.mpr (Format.holds_neg hsigned a.holds)
  obtain ⟨htype, hraw⟩ := neg_eq_ok_iff.mp hn
  obtain ⟨hformat, hvalue⟩ := (ofRaw_exact (a.type.format.valueOf_neg a.raw)).2 n hn
  refine ⟨n, hn, hformat, hvalue, ?_⟩
  rw [neg_eq_ok_iff, htype, hraw, neg_neg]
  exact ⟨rfl, rfl⟩

/-- Of a value and its negative one is the magnitude. -/
theorem exists_abs (hsigned : a.format.signed) : ∃ m, a.abs = .ok m ∧ m.toRat = |a.toRat| := by
  have hstep : (0 : ℚ) < 2 ^ a.format.fractionalBits := by positivity
  rw [abs]
  split
  · next hpos =>
    have hvalue : 0 ≤ a.toRat := div_nonneg (by exact_mod_cast hpos) hstep.le
    exact ⟨a, rfl, (abs_of_nonneg hvalue).symm⟩
  · next hneg =>
    have hvalue : a.toRat ≤ 0 :=
      div_nonpos_of_nonpos_of_nonneg (by exact_mod_cast (not_le.mp hneg).le) hstep.le
    obtain ⟨n, hn, -, hopposite, -⟩ := exists_neg hsigned
    exact ⟨n, hn, hopposite.trans (abs_of_nonpos hvalue).symm⟩

/-- Without a sign only zero has a negative. -/
theorem exists_neg_iff (hsigned : ¬ a.format.signed) : (∃ n, a.neg = .ok n) ↔ a.raw = 0 := by
  rw [neg, exists_ofRaw_iff]
  exact Format.holds_neg_iff hsigned a.holds

/-! ## The laws -/

/-- What the operations on two values of one format come to. Sums and differences return just if
the exact number is in range, products just if the rounded one is. -/
structure ArithmeticLaws (a b : Fixed) : Prop where
  add_iff : (∃ s, a.add b = .ok s) ↔ a.format.Covers (a.toRat + b.toRat)
  add_exact : ∀ s, a.add b = .ok s → s.format = a.format ∧ s.toRat = a.toRat + b.toRat
  add_sub : ∀ s, a.add b = .ok s → s.sub b = .ok a
  sub_iff : (∃ s, a.sub b = .ok s) ↔ a.format.Covers (a.toRat - b.toRat)
  sub_exact : ∀ s, a.sub b = .ok s → s.format = a.format ∧ s.toRat = a.toRat - b.toRat
  mul_iff : (∃ p, a.mul b = .ok p) ↔ a.format.Holds (a.product b)
  mul_raw : ∀ p, a.mul b = .ok p → p.format = a.format ∧ p.raw = a.product b
  mul_comm : ∀ p, a.mul b = .ok p → ∃ q, b.mul a = .ok q ∧ q.eq p
  mul_comm_error : ∀ e, a.mul b = .error e → b.mul a = .error e
  mul_fraction : a.format.integerBits = 0 → ∃ p, a.mul b = .ok p
  mul_one : ∀ t, t.format = a.format →
    a.mul (one t) = .ok a ∧ ∃ p, (one t).mul a = .ok p ∧ p.eq a
  neg_signed : a.format.signed → ∃ n, a.neg = .ok n ∧ n.toRat = -a.toRat ∧ n.neg = .ok a
  abs_signed : a.format.signed → ∃ m, a.abs = .ok m ∧ m.toRat = |a.toRat|
  mul_neg_one : a.format.signed → ∀ t, t.format = a.format →
    ∃ m, (one t).neg = .ok m ∧ a.mul m = a.neg
  neg_unsigned : ¬ a.format.signed → ((∃ n, a.neg = .ok n) ↔ a.raw = 0)

/-- **Arithmetic on one format.** Two values of one format obey the laws, whatever their types.
The result is of the type of the first operand, so that laws which exchange the operands or have
a value of another type in them hold up to equality of values. -/
theorem arithmetic_laws (h : b.format = a.format) : ArithmeticLaws a b := by
  -- the two types may differ, their formats do not
  have htype : b.type.format = a.type.format := h
  constructor
  case add_iff =>
    rw [add_eq h]
    exact (ofRaw_exact (valueOf_add h)).1
  case add_exact =>
    rw [add_eq h]
    exact (ofRaw_exact (valueOf_add h)).2
  case add_sub =>
    intro s hs
    rw [add_eq h] at hs
    obtain ⟨hstype, hsraw⟩ := ofRaw_eq_ok_iff.mp hs
    -- the sum is a value of the format again, so the second operand may be taken from it
    have hformat : b.format = s.format := by rw [format, htype, ← hstype, format]
    rw [sub_eq hformat, hstype, hsraw, add_sub_cancel_right, ofRaw_self]
  case sub_iff =>
    rw [sub_eq h]
    exact (ofRaw_exact (valueOf_sub h)).1
  case sub_exact =>
    rw [sub_eq h]
    exact (ofRaw_exact (valueOf_sub h)).2
  case mul_iff =>
    rw [mul_eq h, exists_ofRaw_iff]
    rfl
  case mul_raw =>
    intro p hp
    rw [mul_eq h] at hp
    obtain ⟨hptype, hpraw⟩ := ofRaw_eq_ok_iff.mp hp
    exact ⟨congrArg ValueType.format hptype, hpraw⟩
  case mul_comm =>
    -- both orders make one scaled integer, each with the type of its first operand
    rw [mul_eq h, mul_eq h.symm, product_comm h]
    exact (ofRaw_alike htype).1
  case mul_comm_error =>
    rw [mul_eq h, mul_eq h.symm, product_comm h]
    exact (ofRaw_alike htype).2
  case mul_fraction =>
    intro hinteger
    rw [mul_eq h, exists_ofRaw_iff, Format.holds_iff_covers, product_eq_halfUp h]
    exact (a.covers_toRat.mul hinteger (h ▸ b.covers_toRat)).halfUp a.format.fractionalBits
  case mul_one =>
    intro t ht
    have hformat : (one t).format = a.format := ht
    rw [mul_eq hformat, mul_eq hformat.symm, product_comm hformat, product_one ht, ofRaw_self]
    exact ⟨rfl, exists_ofRaw_eq ht⟩
  case neg_signed =>
    intro hsigned
    obtain ⟨n, hn, -, hvalue, hagain⟩ := exists_neg hsigned
    exact ⟨n, hn, hvalue, hagain⟩
  case abs_signed => exact exists_abs
  case mul_neg_one =>
    intro hsigned t ht
    -- minus one is the negation of one, and its product with a value negates that
    have hone : (one t).format.signed := by rwa [format, one, ht]
    obtain ⟨m, hm, hformat, hvalue, -⟩ := exists_neg hone
    rw [toRat_one] at hvalue
    have hma : m.format = a.format := hformat.trans ht
    exact ⟨m, hm, by rw [mul_eq hma, product_of_toRat_eq_neg_one hma hvalue, neg]⟩
  case neg_unsigned => exact exists_neg_iff

/-- Minus one of a signed format without integer bits, in two types: the sum of both is out of
range, but neither their product nor the negative is. -/
theorem arithmetic_laws_minus_one :
    let eighths : Format := ⟨true, 0, 3⟩
    let a : Fixed := ⟨⟨eighths, 0, by decide⟩, -8, by decide⟩
    let b : Fixed := ⟨⟨eighths, 1, by decide⟩, -8, by decide⟩
    b.format = a.format ∧ (¬ ∃ s, a.add b = .ok s) ∧ (∃ p, a.mul b = .ok p ∧ p.raw = 8) ∧
      ∃ n, a.neg = .ok n ∧ n.toRat = -a.toRat ∧ n.neg = .ok a := by
  intro eighths a b
  have h : b.format = a.format := rfl
  have laws := arithmetic_laws h
  refine ⟨h, ?_, ?_, laws.neg_signed rfl⟩
  · rw [laws.add_iff]
    decide +kernel
  · obtain ⟨p, hp⟩ := laws.mul_fraction rfl
    exact ⟨p, hp, (laws.mul_raw p hp).2.trans (by decide +kernel)⟩

end Fixed

end BinaryPoint
