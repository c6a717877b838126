import BinaryPoint.Proofs.Binder.Rounding

/-! # Round trips

What was rounded to a format once is on its grid and in its range, so that going elsewhere and
coming back loses nothing more.

* `unbind_bind`: the double of a bound value is the value, and bound again it gives the value;
* `reformat_and_back`: a wider fraction gives every value back, and a narrower one has lost its
  bits on the first way and loses no more.

No way back ends out of range: both ends of a range are integers, which are on every grid
(`Format.Covers.halfUp`).
-/

namespace BinaryPoint

open Binary64

namespace Fixed

/-! ## Values on finer grids -/

/-- The double of a value that is one is scaled to the scaled integer of the value. -/
theorem scaled_toReal (v : Fixed) (h : Representable v.toRat) :
    v.toReal.scaled v.format.fractionalBits = v.raw := by
  rw [Binary64.scaled_eq_halfUp, (toReal_exact h).2, halfUp_toRat]

/-- The double of a value rounds to the scaled integer of the value just if the value is a double:
what a double rounds to is one. -/
theorem halfUp_toReal_eq_iff (v : Fixed) :
    halfUp v.toReal.toRat v.format.fractionalBits = v.raw ↔ Representable v.toRat := by
  constructor
  · intro h
    rw [toRat_eq, ← h]
    exact representable_halfUp (representable_toRat v.toReal) _
  · intro h
    rw [(toReal_exact h).2, halfUp_toRat]

/-- A value of a format of 53 bits besides the sign is a double. -/
theorem representable_of_bits_le {v : Fixed}
    (h : v.format.integerBits + v.format.fractionalBits ≤ precision) :
    Representable v.toRat := by
  have hmax : v.format.rawMax ≤ 2 ^ precision := pow_le_pow_right₀ (by decide) h
  -- below zero the range goes as far as above, or there is nothing
  have hmin : -v.format.rawMax ≤ v.format.rawMin := by
    have hpos : 0 < v.format.rawMax := by
      rw [Format.rawMax]
      positivity
    rw [Format.rawMin]
    split <;> omega
  have hraw : |v.raw| ≤ 2 ^ precision :=
    abs_le.mpr ⟨(neg_le_neg hmax).trans (hmin.trans v.holds.1), v.holds.2.trans hmax⟩
  -- so the value is an integer of 53 bits on a grid that doubles have
  have hscaled : v.toRat = v.raw * 2 ^ (-(v.format.fractionalBits : ℤ)) := by
    rw [toRat_eq, zpow_neg, zpow_natCast, div_eq_mul_inv]
  have hbits : v.format.fractionalBits ≤ precision := (Nat.le_add_left _ _).trans h
  rw [precision] at hbits
  rw [hscaled]
  exact representable_mul_zpow hraw (by omega) (by omega)

/-- At a width that is not below its own a value is a multiple of the step. -/
theorem halfUp_toRat_div {v : Fixed} {bits : ℕ} (h : v.format.fractionalBits ≤ bits) :
    (halfUp v.toRat bits : ℚ) / 2 ^ bits = v.toRat := by
  obtain ⟨k, rfl⟩ := Nat.exists_eq_add_of_le h
  have hmultiple : v.toRat * 2 ^ (v.format.fractionalBits + k) = (v.raw * 2 ^ k : ℤ) := by
    rw [toRat_eq, pow_add]
    push_cast
    field_simp
  rw [halfUp_of_eq hmultiple, ← hmultiple, mul_div_cancel_right₀ _ (by positivity)]

/-- A value of a format with the scaled integer and the number of another value. -/
def SameNumber (f : Format) (v w : Fixed) : Prop :=
  w.format = f ∧ w.raw = v.raw ∧ w.toRat = v.toRat

/-- A value that is rounded to a width not below its own keeps its number. -/
theorem Rounds.toRat_eq {v w : Fixed} {f : Format} (h : w.Rounds f v.toRat)
    (hbits : v.format.fractionalBits ≤ f.fractionalBits) : w.toRat = v.toRat := by
  obtain ⟨rfl, hraw⟩ := h
  rw [w.toRat_eq, hraw, halfUp_toRat_div hbits]

/-- A rounding does not leave a range that the number is in, of whichever format. -/
theorem Rounds.covers {v : Fixed} {f d : Format} {q : ℚ} (h : v.Rounds f q) (hq : d.Covers q) :
    d.Covers v.toRat := by
  obtain ⟨rfl, hraw⟩ := h
  rw [v.toRat_eq, hraw]
  exact hq.halfUp v.format.fractionalBits

/-- A value whose number is in the range of a format that is no coarser has that number there. -/
theorem exists_ofRaw_finer {v : Fixed} {t : ValueType}
    (hbits : v.format.fractionalBits ≤ t.format.fractionalBits) (h : t.format.Covers v.toRat) :
    ∃ w, ofRaw t (halfUp v.toRat t.format.fractionalBits) = .ok w ∧ w.format = t.format ∧
      w.toRat = v.toRat := by
  have hholds : t.format.Holds (halfUp v.toRat t.format.fractionalBits) := by
    rwa [Format.holds_iff_covers, Format.valueOf, halfUp_toRat_div hbits]
  obtain ⟨w, hw⟩ := exists_ofRaw_iff.mpr hholds
  have hrounds := rounds_of_ofRaw hw
  exact ⟨w, hw, hrounds.1, hrounds.toRat_eq hbits⟩

end Fixed

namespace Binder

variable {b : Binder} {cache : Cache ValueType} {f : Format} {t : ValueType}

/-! ## Binding again -/

/-- Binding returns a value of the type that the cache has for the format. -/
theorem runOn_typeFor_of_bind {d : Descriptor} {x : Binary64} {v : Fixed}
    (h : ((b.bind d x).runOn cache).1 = .ok v) : ((b.typeFor d).runOn cache).1 = .ok v.type := by
  rw [bind, bindNumber, Binding.runOn_bind_of_fst, bind_eq_ok] at h
  obtain ⟨t, ht, hv⟩ := h
  have htype : v.type = t := type_of_roundTo hv
  rw [ht, htype]

/-- The double of a value that is one is rounded to the scaled integer of the value, in each type
of its width. -/
theorem roundTo_toReal {v : Fixed} (h : Representable v.toRat)
    (ht : t.format.fractionalBits = v.format.fractionalBits) :
    roundTo t v.toReal = Fixed.ofRaw t v.raw := by
  rw [roundTo, if_pos (Fixed.toReal_exact h).1, ht, v.scaled_toReal h]

/-- Bound to any format of its width, such a double gives the scaled integer or nothing. -/
theorem bind_toReal_eq_ok_iff (hcache : Reached cache) {v w : Fixed} (h : Representable v.toRat)
    (hbits : f.fractionalBits = v.format.fractionalBits) :
    ((b.bind f v.toReal).runOn cache).1 = .ok w ↔
      ((b.typeFor f).runOn cache).1 = .ok w.type ∧ w.raw = v.raw := by
  have hround {t : ValueType} (ht : ((b.typeFor f).runOn cache).1 = .ok t) :
      ((b.bind f v.toReal).runOn cache).1 = Fixed.ofRaw t v.raw := by
    obtain rfl : t.format = f := (ensures_typeFor b f cache hcache).2 t ht
    rw [runOn_bind_of_typeFor ht, roundTo_toReal h hbits]
  constructor
  · intro hw
    have htype := runOn_typeFor_of_bind hw
    rw [hround htype, Fixed.ofRaw_eq_ok_iff] at hw
    exact ⟨htype, hw.2⟩
  · rintro ⟨htype, hraw⟩
    rw [hround htype, Fixed.ofRaw_eq_ok_iff]
    exact ⟨rfl, hraw⟩

/-- It gives the integer just if the format has a type, and a range that reaches it. -/
theorem exists_bind_toReal_iff (hcache : Reached cache) {v : Fixed} (h : Representable v.toRat)
    (hbits : f.fractionalBits = v.format.fractionalBits) :
    (∃ w, ((b.bind f v.toReal).runOn cache).1 = .ok w) ↔
      (∃ t, ((b.typeFor f).runOn cache).1 = .ok t) ∧ f.Holds v.raw := by
  simp only [bind_toReal_eq_ok_iff hcache h hbits]
  constructor
  · rintro ⟨w, ht, hraw⟩
    refine ⟨⟨w.type, ht⟩, ?_⟩
    rw [← (ensures_typeFor b f cache hcache).2 w.type ht, ← hraw]
    exact w.holds
  · rintro ⟨⟨t, ht⟩, hholds⟩
    obtain rfl := (ensures_typeFor b f cache hcache).2 t ht
    exact ⟨⟨t, v.raw, hholds⟩, ht, rfl⟩

theorem sameNumber_of_bind_toReal (hcache : Reached cache) {v w : Fixed}
    (h : Representable v.toRat) (hbits : f.fractionalBits = v.format.fractionalBits)
    (hw : ((b.bind f v.toReal).runOn cache).1 = .ok w) : Fixed.SameNumber f v w := by
  obtain ⟨ht, hraw⟩ := (bind_toReal_eq_ok_iff hcache h hbits).mp hw
  have hformat : w.format = f := (ensures_typeFor b f cache hcache).2 w.type ht
  refine ⟨hformat, hraw, ?_⟩
  rw [w.toRat_eq, v.toRat_eq, hformat, hraw, hbits]

/-- **Unbinding loses nothing more than binding did.** The double of a value that a double was
bound to is that very value, however wide the format, and half a step from the double at most.
Bound to the format again, it gives the value, and on any other cache an equal one. -/
theorem unbind_bind (hcache : Reached cache) {x : Binary64} {v : Fixed}
    (hv : ((b.bind f x).runOn cache).1 = .ok v) :
    (unbind v).isFinite ∧ (unbind v).toRat = v.raw / 2 ^ f.fractionalBits ∧
    |(unbind v).toRat - x.toRat| ≤ 1 / 2 ^ (f.fractionalBits + 1) ∧
    ((b.bind f (unbind v)).runOn ((b.bind f x).runOn cache).2).1 = .ok v ∧
    ∀ (other : Binder) (cache' : Cache ValueType), Reached cache' →
      (∃ t, ((other.typeFor f).runOn cache').1 = .ok t) →
      ∃ w, ((other.bind f (unbind v)).runOn cache').1 = .ok w ∧ w.eq v := by
  have hrounds := (ensures_bind b f x cache hcache).2 v hv
  have hrepresentable := hrounds.representable (representable_toRat x)
  obtain ⟨hfinite, hexact⟩ := Fixed.toReal_exact hrepresentable
  -- the value is a rounding of a double, and therefore a double itself
  obtain rfl : v.format = f := hrounds.1
  refine ⟨hfinite, hexact, ?_, ?_, ?_⟩
  · rw [unbind, hexact, hrounds.abs_sub]
    exact halfUpError_le _ _
  · -- the first request has not changed the answer to the second one
    have hafter := (ensures_bind b v.format x cache hcache).1
    rw [unbind, bind_toReal_eq_ok_iff hafter hrepresentable rfl,
      (steady_bind b v.format x).runOn_typeFor]
    exact ⟨runOn_typeFor_of_bind hv, rfl⟩
  · -- another binder may give another type, of the same format
    rintro other cache' hcache' ⟨t, ht⟩
    have hformat : t.format = v.format := (ensures_typeFor other v.format cache' hcache').2 t ht
    have hbits := congrArg Format.fractionalBits hformat
    rw [runOn_bind_of_typeFor ht, unbind, roundTo_toReal hrepresentable hbits]
    exact Fixed.exists_ofRaw_eq hformat

/-- Three times the least double, in steps of twice the least one: the tie goes up to two steps,
in the cache where it was bound and again in a fresh one. -/
theorem unbind_bind_subnormal :
    let x := Binary64.ofRatio false 3 (2 ^ 1074)
    let f : Format := ⟨false, 0, 1073⟩
    let b : Binder := ⟨.int 2048, 0⟩
    let bound := (b.bind f x).runOn {}
    ∃ v, bound.1 = .ok v ∧ (unbind v).toRat = 2 / 2 ^ f.fractionalBits ∧
      ((b.bind f (unbind v)).runOn bound.2).1 = .ok v ∧
      ∃ w, (((⟨.int 1074, 1⟩ : Binder).bind f (unbind v)).runOn {}).1 = .ok w ∧ w.eq v := by
  intro x f b bound
  have hraw : bound.1.toOption.map (·.raw) = some 2 := by decide +kernel
  obtain ⟨v, hsome, hv⟩ := Option.map_eq_some_iff.mp hraw
  have hbound := eq_ok_of_toOption hsome
  obtain ⟨-, hexact, -, hagain, hother⟩ := unbind_bind .empty hbound
  have ht : (((⟨.int 1074, 1⟩ : Binder).typeFor f).runOn {}).1 = .ok ⟨f, 1, by decide⟩ :=
    eq_ok_of_toOption (by decide +kernel)
  refine ⟨v, hbound, ?_, hagain, hother _ {} .empty ⟨_, ht⟩⟩
  rw [hexact, hv, Int.cast_ofNat]

/-! ## Reformatting back -/

/-- Reformatting is rounding the number of a value in the type of the format. -/
theorem runOn_reformat_of_typeFor {d : Descriptor} (h : ((b.typeFor d).runOn cache).1 = .ok t)
    (v : Fixed) :
    ((b.reformat v d).runOn cache).1 =
      Fixed.ofRaw t (halfUp v.toRat t.format.fractionalBits) := by
  rw [reformat, Binding.runOn_bind_of_fst, h, ← Fixed.shiftRound_raw]
  rfl

/-- **Reformatting there and back.** Where the format of a value and another one have types, the
value is reformatted to the other one just if its rounding is in range, and is refused as out of
range else. From a fraction that is not narrower the way back gives the value; from one that is
not wider it gives the number that was reached, in the format that the value had, and the same
way once more leads to the same result. -/
theorem reformat_and_back (hcache : Reached cache) {v : Fixed}
    (hv : ∃ t, ((b.typeFor v.format).runOn cache).1 = .ok t)
    (hf : ∃ t, ((b.typeFor f).runOn cache).1 = .ok t) :
    let raw := ⌊(v.raw : ℚ) * 2 ^ ((f.fractionalBits : ℤ) - v.format.fractionalBits) + 1 / 2⌋
    let there := (b.reformat v f).runOn cache
    ((∃ n, there.1 = .ok n) ↔ f.Holds raw) ∧
    (FailsAs .valueOutOfRange there.1 ↔ ¬ f.Holds raw) ∧
    ∀ n, there.1 = .ok n → n.format = f ∧ n.raw = raw ∧
      let back := (b.reformat n v.format).runOn there.2
      (v.format.fractionalBits ≤ f.fractionalBits → ∃ w, back.1 = .ok w ∧ w.eq v) ∧
      (f.fractionalBits ≤ v.format.fractionalBits →
        ∃ w, back.1 = .ok w ∧ w.format = v.format ∧ w.toRat = n.toRat ∧
          ((b.reformat w f).runOn back.2).1 = .ok n) := by
  intro raw there
  obtain ⟨t, ht⟩ := hv
  obtain ⟨t', ht'⟩ := hf
  have hwritable : f.Writable := (ensures_writable b f cache hcache.legible).2 t' ht'
  have hformat : t.format = v.format := (ensures_typeFor b v.format cache hcache).2 t ht
  obtain rfl : t'.format = f := (ensures_typeFor b f cache hcache).2 t' ht'
  have hraw : raw = halfUp v.toRat t'.format.fractionalBits := by
    rw [← v.shiftRound_raw, shiftRound_eq_floor, neg_sub]
  have hthere : there.1 = Fixed.ofRaw t' raw := by
    rw [hraw]
    exact runOn_reformat_of_typeFor ht' v
  -- the rounding stays in the range that the value is in, and so clear of the overflow
  have hcovers := v.covers_toRat.halfUp t'.format.fractionalBits
  rw [← hraw] at hcovers
  rw [hthere, Fixed.exists_ofRaw_iff, failsAs_ofRaw_iff hwritable (hcovers.abs_lt v.type.bounded)]
  refine ⟨Iff.rfl, Iff.rfl, fun n hn => ?_⟩
  obtain ⟨rfl, hnraw⟩ := Fixed.ofRaw_eq_ok_iff.mp hn
  have hn : n.Rounds n.format v.toRat := ⟨rfl, hnraw.trans hraw⟩
  refine ⟨rfl, hnraw, ?_⟩
  intro back
  have hback : back.1 = Fixed.ofRaw t (halfUp n.toRat v.format.fractionalBits) := by
    rw [← (steady_reformat b v n.format).runOn_typeFor] at ht
    rw [← hformat]
    exact runOn_reformat_of_typeFor ht n
  constructor
  · intro hbits
    rw [hback, hn.toRat_eq hbits, v.halfUp_toRat]
    exact Fixed.exists_ofRaw_eq hformat
  · intro hbits
    -- the number that was reached is on the grid of the value's format and in its range
    have hreached := hn.covers v.covers_toRat
    rw [← hformat] at hbits hback hreached
    obtain ⟨w, hw, hwformat, hwn⟩ := Fixed.exists_ofRaw_finer hbits hreached
    refine ⟨w, hback.trans hw, hwformat.trans hformat, hwn, ?_⟩
    rw [← (steady_reformat b v n.format).runOn_typeFor,
      ← (steady_reformat b n v.format).runOn_typeFor] at ht'
    have hself : halfUp n.toRat n.type.format.fractionalBits = n.raw := n.halfUp_toRat
    have hagain := runOn_reformat_of_typeFor ht' w
    rwa [hwn, hself, Fixed.ofRaw_self] at hagain

/-- Eleven eighths below zero are a tie between quarters, which goes up. From the quarters the
way back leads to ten eighths, and from sixteenths to the eleven. -/
theorem reformat_and_back_eighths :
    let v : Fixed := ⟨⟨⟨true, 2, 3⟩, 0, by decide⟩, -11, by decide⟩
    let quarters : Format := ⟨true, 1, 2⟩
    let sixteenths : Format := ⟨true, 2, 4⟩
    let b : Binder := ⟨.int 1024, 0⟩
    let there (f : Format) := (b.reformat v f).runOn {}
    (∃ n w, (there quarters).1 = .ok n ∧ n.raw = -5 ∧
      ((b.reformat n v.format).runOn (there quarters).2).1 = .ok w ∧ w.toRat = n.toRat) ∧
    ∃ n w, (there sixteenths).1 = .ok n ∧ n.raw = -22 ∧
      ((b.reformat n v.format).runOn (there sixteenths).2).1 = .ok w ∧ w.eq v := by
  intro v quarters sixteenths b there
  have hv : ∃ t, ((b.typeFor v.format).runOn {}).1 = .ok t :=
    ⟨⟨v.format, 0, by decide⟩, eq_ok_of_toOption (by decide +kernel)⟩
  have hquarters : ∃ t, ((b.typeFor quarters).runOn {}).1 = .ok t :=
    ⟨⟨quarters, 0, by decide⟩, eq_ok_of_toOption (by decide +kernel)⟩
  have hsixteenths : ∃ t, ((b.typeFor sixteenths).runOn {}).1 = .ok t :=
    ⟨⟨sixteenths, 0, by decide⟩, eq_ok_of_toOption (by decide +kernel)⟩
  constructor
  · -- to the coarser grid: the way back keeps the rounded number
    obtain ⟨hreturns, -, hback⟩ := reformat_and_back .empty hv hquarters
    obtain ⟨n, hn⟩ := hreturns.mpr (by decide +kernel)
    obtain ⟨-, hraw, -, hnarrow⟩ := hback n hn
    obtain ⟨w, hw, -, hsame, -⟩ := hnarrow (by decide)
    exact ⟨n, w, hn, hraw.trans (by decide +kernel), hw, hsame⟩
  · -- to the finer grid: the way back leads to the value itself
    obtain ⟨hreturns, -, hback⟩ := reformat_and_back .empty hv hsixteenths
    obtain ⟨n, hn⟩ := hreturns.mpr (by decide +kernel)
    obtain ⟨-, hraw, hwide, -⟩ := hback n hn
    obtain ⟨w, hw, hsame⟩ := hwide (by decide)
    exact ⟨n, w, hn, hraw.trans (by decide +kernel), hw, hsame⟩

end Binder

end BinaryPoint
