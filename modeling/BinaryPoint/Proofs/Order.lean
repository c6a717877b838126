import BinaryPoint.Proofs.Arithmetic
import BinaryPoint.Proofs.Binder.Made
import BinaryPoint.Session.Action

/-! # The order of values

Values of one format are compared as the numbers that they stand for, and rounding keeps the
order of numbers, so every operation that ends with one rounding keeps it too.

* `Compared`, `Mismatched`: what the six comparing operators answer to two values of one format,
  and to values of two formats;
* `order_respected`: these answers, and that binding, reformatting, adding a value and multiplying
  with one that is not negative keep the order.

Three of the four ordering operators are put together from `<` and equality. Between two formats
`<` is refused and equality is not, so it matters that all of them ask for `<` first.
-/

namespace BinaryPoint

open Binder (Bound Made Reached Reformatted)
open Session (Question ask truth)

/-- What a comparison says of two numbers. -/
def Comparison.Relates (c : Comparison) (q r : ℚ) : Prop :=
  match c with
  | less => q < r
  | lessOrEqual => q ≤ r
  | greater => r < q
  | greaterOrEqual => r ≤ q

instance (c : Comparison) (q r : ℚ) : Decidable (c.Relates q r) :=
  match c with
  | .less => inferInstanceAs (Decidable (q < r))
  | .lessOrEqual => inferInstanceAs (Decidable (q ≤ r))
  | .greater => inferInstanceAs (Decidable (r < q))
  | .greaterOrEqual => inferInstanceAs (Decidable (r ≤ q))

namespace Fixed

variable {a b c v w : Fixed}

/-! ## Comparing values -/

/-- In one format the order of scaled integers is that of the numbers. -/
theorem raw_lt_raw_iff (h : b.format = a.format) : a.raw < b.raw ↔ a.toRat < b.toRat := by
  have hstep : (0 : ℚ) < 2 ^ a.format.fractionalBits := by positivity
  rw [a.toRat_eq, b.toRat_eq, h, div_lt_div_iff_of_pos_right hstep, Int.cast_lt]

theorem raw_le_raw_iff (h : b.format = a.format) : a.raw ≤ b.raw ↔ a.toRat ≤ b.toRat := by
  rw [← not_lt, raw_lt_raw_iff h.symm, not_lt]

/-- In one format values are equal as their numbers are. -/
theorem eq_eq (h : b.format = a.format) : a.eq b = decide (a.toRat = b.toRat) := by
  rw [Bool.eq_iff_iff, decide_eq_true_eq, eq_iff, and_iff_right h.symm, le_antisymm_iff,
    le_antisymm_iff, raw_le_raw_iff h, raw_le_raw_iff h.symm]

theorem lt_eq (h : b.format = a.format) : a.lt b = .ok (decide (a.toRat < b.toRat)) := by
  rw [lt, operand, if_pos h, ok_bind, decide_eq_decide.mpr (raw_lt_raw_iff h)]

/-- Each comparison of two values of one format is that of their numbers. -/
theorem compare_eq (h : b.format = a.format) (c : Comparison) :
    a.compare c b = .ok (decide (c.Relates a.toRat b.toRat)) := by
  cases c with
  | less => exact lt_eq h
  | lessOrEqual =>
    rw [compare, le, lt_eq h, ok_bind, eq_eq h, ← Bool.decide_or]
    exact congrArg Except.ok (decide_eq_decide.mpr le_iff_lt_or_eq.symm)
  | greater =>
    have hgreater : ¬ a.toRat < b.toRat ∧ ¬ a.toRat = b.toRat ↔ b.toRat < a.toRat := by
      rw [not_lt, lt_iff_le_and_ne']
    rw [compare, gt, lt_eq h, ok_bind, eq_eq h, ← decide_not, ← decide_not, ← Bool.decide_and]
    exact congrArg Except.ok (decide_eq_decide.mpr hgreater)
  | greaterOrEqual =>
    rw [compare, ge, lt_eq h, ok_bind, ← decide_not]
    exact congrArg Except.ok (decide_eq_decide.mpr not_lt)

/-- No comparison gets by the operand of another format. -/
theorem compare_of_ne (h : b.format ≠ a.format) (c : Comparison) :
    a.compare c b = refuse (.formatsDiffer a.format b.format) := by
  have hlt : a.lt b = refuse (.formatsDiffer a.format b.format) := by
    rw [lt, operand, if_neg h, refuse_bind]
  cases c with
  | less => exact hlt
  | lessOrEqual => rw [compare, le, hlt, refuse_bind]
  | greater => rw [compare, gt, hlt, refuse_bind]
  | greaterOrEqual => rw [compare, ge, hlt, refuse_bind]

theorem le_iff : a.le b = .ok true ↔ b.format = a.format ∧ a.toRat ≤ b.toRat := by
  by_cases h : b.format = a.format
  · rw [show a.le b = _ from compare_eq h .lessOrEqual, Except.ok.injEq, decide_eq_true_eq,
      and_iff_right h]
    rfl
  · rw [show a.le b = _ from compare_of_ne h .lessOrEqual]
    simp [h]

/-! ## Rounding keeps the order -/

/-- Roundings to one format are in the order of the numbers that were rounded. -/
theorem Rounds.le {f : Format} {q r : ℚ} (hv : v.Rounds f q) (hw : w.Rounds f r) (h : q ≤ r) :
    v.le w = .ok true := by
  obtain ⟨rfl, hvraw⟩ := hv
  obtain ⟨hformat, hwraw⟩ := hw
  rw [le_iff, ← raw_le_raw_iff hformat, hvraw, hwraw]
  exact ⟨hformat, halfUp_mono h v.format.fractionalBits⟩

/-- An operation returns only if its operands have one format. -/
theorem format_of_operand {g : ℤ → Except Fault Fixed} (h : (a.operand b >>= g) = .ok v) :
    b.format = a.format := by
  by_contra hne
  rw [operand, if_neg hne, refuse_bind] at h
  exact refuse_ne_ok _ _ h

/-- A sum is exact, and so it is its own rounding. -/
theorem rounds_of_add (h : a.add b = .ok v) : v.Rounds a.format (a.toRat + b.toRat) := by
  have hformat : b.format = a.format := format_of_operand h
  rw [add_eq hformat] at h
  obtain ⟨hv, hsum⟩ := (ofRaw_exact (valueOf_add hformat)).2 v h
  refine ⟨hv, ?_⟩
  rw [← hsum, ← v.halfUp_toRat, hv]
  rfl

theorem rounds_of_mul (h : a.mul b = .ok v) : v.Rounds a.format (a.toRat * b.toRat) := by
  have hformat : b.format = a.format := format_of_operand h
  rw [mul_eq hformat] at h
  obtain ⟨htype, hraw⟩ := ofRaw_eq_ok_iff.mp h
  exact ⟨congrArg ValueType.format htype, hraw.trans (product_eq_halfUp hformat)⟩

end Fixed

/-! ## The operators of a session -/

/-- What an operator answers to two values, whichever objects they are. -/
def Answers (q : Question) (a b : Fixed) (r : Except Fault Bool) : Prop :=
  ∀ serial serial', ask q (.fixed a serial) (.fixed b serial') = truth r

/-- All six operators answer as for the numbers of the values. -/
structure Compared (a b : Fixed) : Prop where
  order : ∀ c, Answers (.order c) a b (.ok (c.Relates a.toRat b.toRat))
  equal : Answers .equal a b (.ok (a.toRat = b.toRat))
  notEqual : Answers .notEqual a b (.ok (a.toRat ≠ b.toRat))

/-- The values are unequal, and in no order. -/
structure Mismatched (a b : Fixed) : Prop where
  order : ∀ c, ∃ f, f.kind = .formatMismatch ∧ Answers (.order c) a b (.error f)
  equal : Answers .equal a b (.ok false)
  notEqual : Answers .notEqual a b (.ok true)

theorem compared {a b : Fixed} (h : b.format = a.format) : Compared a b := by
  constructor
  case order =>
    intro c serial serial'
    rw [← Fixed.compare_eq h c]
    rfl
  case equal =>
    intro serial serial'
    rw [← Fixed.eq_eq h]
    rfl
  case notEqual =>
    intro serial serial'
    rw [decide_not, ← Fixed.eq_eq h]
    rfl

/-- The fault that the ordering operators end in can be worded, since both formats have types. -/
theorem mismatched {a b : Fixed} (ha : Made a) (hb : Made b) (h : b.format ≠ a.format) :
    Mismatched a b := by
  obtain ⟨left, hleft⟩ := ha.writable.exists_key?
  obtain ⟨right, hright⟩ := hb.writable.exists_key?
  -- both formats can be written, so the fault is raised as it is
  have hworded : (Fault.formatsDiffer a.format b.format).message?.isSome := by
    simp [Fault.message?, hleft, hright]
  have heq : a.eq b = false := by
    rw [Fixed.eq, decide_eq_false fun heq => h heq.symm, Bool.false_and]
  constructor
  case order =>
    refine fun c => ⟨.formatsDiffer a.format b.format, rfl, fun serial serial' => ?_⟩
    rw [← refuse_of_worded hworded, ← Fixed.compare_of_ne h c]
    rfl
  case equal =>
    intro serial serial'
    rw [← heq]
    rfl
  case notEqual =>
    intro serial serial'
    rw [← Bool.not_false, ← heq]
    rfl

/-! ## The laws -/

/-- A double between two others that are bound to a format is bound to it as well. -/
theorem exists_bind_between {f : Format} {x y z : Binary64} {v w : Fixed} (hv : Bound f x v)
    (hw : Bound f y w) (hz : z.isFinite) (hxz : x.toRat ≤ z.toRat) (hzy : z.toRat ≤ y.toRat)
    {b : Binder} {cache : Cache ValueType} (hcache : Reached cache)
    (ht : ∃ t, ((b.typeFor f).runOn cache).1 = .ok t) :
    ∃ u, ((b.bind f z).runOn cache).1 = .ok u := by
  obtain ⟨t, ht⟩ := ht
  obtain rfl : t.format = f := (Binder.ensures_typeFor b f cache hcache).2 t ht
  rw [Binder.runOn_bind_of_typeFor ht, Binder.exists_roundTo_iff]
  refine ⟨hz, ?_, ?_⟩
  · calc t.format.rawMin ≤ v.raw := hv.rounds.holds.1
      _ = halfUp x.toRat t.format.fractionalBits := hv.rounds.2
      _ ≤ halfUp z.toRat t.format.fractionalBits := halfUp_mono hxz _
  · calc halfUp z.toRat t.format.fractionalBits
        ≤ halfUp y.toRat t.format.fractionalBits := halfUp_mono hzy _
      _ = w.raw := hw.rounds.2.symm
      _ ≤ t.format.rawMax := hw.rounds.holds.2

/-- **Order is respected.** All operators compare values of one format as the numbers that they
stand for; of two formats, values are unequal, and every ordering operator is refused. Binding
keeps the order of doubles, and what lies between two doubles that are accepted is accepted too.
Reformatting, adding a value, and multiplying with a value that is not negative keep the order of
values wherever both results exist. -/
theorem order_respected :
    (∀ a b : Fixed, b.format = a.format → Compared a b) ∧
    (∀ a b : Fixed, Made a → Made b → b.format ≠ a.format → Mismatched a b) ∧
    (∀ f x y v w, Bound f x v → Bound f y w → x.toRat ≤ y.toRat →
      v.le w = .ok true ∧
      ∀ (b : Binder) (cache : Cache ValueType), Reached cache →
        (∃ t, ((b.typeFor f).runOn cache).1 = .ok t) →
        ∀ z : Binary64, z.isFinite → x.toRat ≤ z.toRat → z.toRat ≤ y.toRat →
          ∃ u, ((b.bind f z).runOn cache).1 = .ok u) ∧
    (∀ v w f v' w', v.le w = .ok true → Reformatted v f v' → Reformatted w f w' →
      v'.le w' = .ok true) ∧
    (∀ a b c s s' : Fixed, a.le b = .ok true → a.add c = .ok s → b.add c = .ok s' →
      s.le s' = .ok true) ∧
    (∀ a b c p p' : Fixed, a.le b = .ok true → 0 ≤ c.toRat → a.mul c = .ok p → b.mul c = .ok p' →
      p.le p' = .ok true) := by
  refine ⟨fun a b => compared, fun a b => mismatched, ?_, ?_, ?_, ?_⟩
  · intro f x y v w hv hw hxy
    refine ⟨hv.rounds.le hw.rounds hxy, fun b cache hcache ht z hz hxz hzy => ?_⟩
    exact exists_bind_between hv hw hz hxz hzy hcache ht
  · intro v w f v' w' hvw hv hw
    obtain ⟨-, hle⟩ := Fixed.le_iff.mp hvw
    exact hv.rounds.le hw.rounds hle
  · -- both sums are exact, in the format of the first operand
    intro a b c s s' hab hs hs'
    obtain ⟨hformat, hle⟩ := Fixed.le_iff.mp hab
    have hsum := Fixed.rounds_of_add hs'
    rw [hformat] at hsum
    exact (Fixed.rounds_of_add hs).le hsum (add_le_add_left hle c.toRat)
  · -- both products are roundings of products in order
    intro a b c p p' hab hc hp hp'
    obtain ⟨hformat, hle⟩ := Fixed.le_iff.mp hab
    have hproduct := Fixed.rounds_of_mul hp'
    rw [hformat] at hproduct
    exact (Fixed.rounds_of_mul hp).le hproduct (mul_le_mul_of_nonneg_right hle hc)

/-- Sixteenths on both sides of zero are ties between eighths and go up, to values of two types.
In quarters, added to the greater one and multiplied with it they stay in order; with a value of
another format they are in none. -/
theorem order_respected_ties :
    let eighths : Format := ⟨true, 1, 3⟩
    let quarters : Format := ⟨true, 1, 2⟩
    let eighth (origin : ℕ) (n : ℤ) (h : eighths.Holds n) : Fixed :=
      ⟨⟨eighths, origin, by decide⟩, n, h⟩
    let v := eighth 0 0 (by decide)
    let w := eighth 1 1 (by decide)
    let v' : Fixed := ⟨⟨quarters, 0, by decide⟩, 0, by decide⟩
    let w' : Fixed := ⟨⟨quarters, 1, by decide⟩, 1, by decide⟩
    Bound eighths (.ofRatio true 1 16) v ∧ Bound eighths (.ofRatio false 1 16) w ∧
      Compared v w ∧ Mismatched v w' ∧ v.le w = .ok true ∧
      (∃ u, (((⟨.int 5, 2⟩ : Binder).bind eighths (.zero true)).runOn {}).1 = .ok u) ∧
      v'.le w' = .ok true ∧
      (eighth 0 1 (by decide)).le (eighth 1 2 (by decide)) = .ok true ∧
      v.le (eighth 1 0 (by decide)) = .ok true := by
  intro eighths quarters eighth v w v' w'
  obtain ⟨hcompared, hmismatched, hbound, hreformatted, hadd, hmul⟩ := order_respected
  have hv : Bound eighths (.ofRatio true 1 16) v :=
    ⟨⟨.int 1024, 0⟩, {}, .empty, eq_ok_of_toOption (by decide +kernel)⟩
  have hw : Bound eighths (.ofRatio false 1 16) w :=
    ⟨⟨.int 64, 1⟩, {}, .empty, eq_ok_of_toOption (by decide +kernel)⟩
  have hv' : Reformatted v quarters v' :=
    ⟨⟨.int 1024, 0⟩, {}, .empty, eq_ok_of_toOption (by decide +kernel)⟩
  have hw' : Reformatted w quarters w' :=
    ⟨⟨.int 64, 1⟩, {}, .empty, eq_ok_of_toOption (by decide +kernel)⟩
  obtain ⟨hle, hbetween⟩ := hbound _ _ _ _ _ hv hw (by decide +kernel)
  refine ⟨hv, hw, hcompared v w rfl, ?_, hle, ?_, hreformatted v w quarters v' w' hle hv' hw', ?_, ?_⟩
  · exact hmismatched v w' (.bound hv) (.reformatted (.bound hw) hw') (by decide)
  · -- minus zero lies between the two
    refine hbetween ⟨.int 5, 2⟩ {} .empty ?_ (.zero true) rfl (by decide +kernel) (by decide +kernel)
    exact ⟨⟨eighths, 2, by decide⟩, eq_ok_of_toOption (by decide +kernel)⟩
  · exact hadd v w w _ _ hle (eq_ok_of_toOption (by decide +kernel))
      (eq_ok_of_toOption (by decide +kernel))
  · exact hmul v w w _ _ hle (by decide +kernel) (eq_ok_of_toOption (by decide +kernel))
      (eq_ok_of_toOption (by decide +kernel))

end BinaryPoint
