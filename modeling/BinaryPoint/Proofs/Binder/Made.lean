import BinaryPoint.Proofs.Binder.Rounding
import BinaryPoint.Proofs.Operand.Values

/-! # Values that binders make

A value is bound from a double, reformatted from another value, or the result of an operator,
and each of these steps may be taken with another binder on another cache. In all of them the
value gets a type that a binder has returned, or the type of an operand.

* `Bound`, `Reformatted`: what some binder makes of a double, and of another value;
* `Made`: all values that come about in these ways, one after the other;
* `Made.issued`, `Made.writable`: so their types are types that binders return, and their formats
  can be written;
* `FromDouble`: those among them that no operator had a part in, all of which are doubles.
-/

namespace BinaryPoint.Binder

variable {f : Format} {t : ValueType} {u v : Fixed} {x : Binary64}

/-! ## One step -/

/-- A type that some binder returns, from a reachable cache. -/
def Issued (t : ValueType) : Prop :=
  ∃ (b : Binder) (cache : Cache ValueType) (f : Format),
    Reached cache ∧ ((b.typeFor f).runOn cache).1 = .ok t

/-- A value that some binder binds a double to. -/
def Bound (f : Format) (x : Binary64) (v : Fixed) : Prop :=
  ∃ (b : Binder) (cache : Cache ValueType), Reached cache ∧ ((b.bind f x).runOn cache).1 = .ok v

/-- A value that some binder reformats another one to. -/
def Reformatted (u : Fixed) (f : Format) (v : Fixed) : Prop :=
  ∃ (b : Binder) (cache : Cache ValueType),
    Reached cache ∧ ((b.reformat u f).runOn cache).1 = .ok v

/-- A format for which a type was returned can be written. -/
theorem Issued.writable (h : Issued t) : t.format.Writable := by
  obtain ⟨b, cache, f, hcache, ht⟩ := h
  obtain rfl : t.format = f := (ensures_typeFor b f cache hcache).2 t ht
  exact (ensures_writable b t.format cache hcache.legible).2 t ht

/-- What is made with a type that was asked for has a type that was returned. -/
theorem issued_of_make {b : Binder} {cache : Cache ValueType} (hcache : Reached cache)
    {make : ValueType → Except Fault Fixed} (hmake : ∀ t v, make t = .ok v → v.type = t)
    (hv : ((b.typeFor f >>= fun t => Binding.of (make t)).runOn cache).1 = .ok v) :
    Issued v.type := by
  rw [Binding.runOn_bind_of_fst] at hv
  obtain ⟨t, ht, hv⟩ := bind_eq_ok.mp hv
  obtain rfl : v.type = t := hmake t v hv
  exact ⟨b, cache, f, hcache, ht⟩

theorem Bound.issued (h : Bound f x v) : Issued v.type := by
  obtain ⟨b, cache, hcache, hv⟩ := h
  exact issued_of_make hcache (fun _ _ => type_of_roundTo) hv

theorem Bound.rounds (h : Bound f x v) : v.Rounds f x.toRat := by
  obtain ⟨b, cache, hcache, hv⟩ := h
  exact (ensures_bind b f x cache hcache).2 v hv

theorem Reformatted.issued (h : Reformatted u f v) : Issued v.type := by
  obtain ⟨b, cache, hcache, hv⟩ := h
  exact issued_of_make hcache (fun _ _ h => (Fixed.ofRaw_eq_ok_iff.mp h).1) hv

theorem Reformatted.rounds (h : Reformatted u f v) : v.Rounds f u.toRat := by
  obtain ⟨b, cache, hcache, hv⟩ := h
  exact (ensures_reformat b u f cache hcache).2 v hv

/-! ## Any number of steps -/

/-- The values that there are: made by any binders on any reachable caches, or computed from such
values. -/
inductive Made : Fixed → Prop
  | bound {f : Format} {x : Binary64} {v : Fixed} : Bound f x v → Made v
  | reformatted {u v : Fixed} {f : Format} : Made u → Reformatted u f v → Made v
  | raw {t : ValueType} {n : ℤ} {v : Fixed} : Issued t → Fixed.ofRaw t n = .ok v → Made v
  | add {u v w : Fixed} : Made u → Made v → u.add v = .ok w → Made w
  | sub {u v w : Fixed} : Made u → Made v → u.sub v = .ok w → Made w
  | mul {u v w : Fixed} : Made u → Made v → u.mul v = .ok w → Made w
  | neg {u v : Fixed} : Made u → u.neg = .ok v → Made v
  | abs {u v : Fixed} : Made u → u.abs = .ok v → Made v

/-- Operators keep the type of the first operand; all other ways start from a request. -/
theorem Made.issued (h : Made v) : Issued v.type := by
  induction h with
  | bound h => exact h.issued
  | reformatted _ h _ => exact h.issued
  | raw ht h => exact (Fixed.ofRaw_eq_ok_iff.mp h).1 ▸ ht
  | add _ _ h ihu _ => exact Fixed.type_of_add h ▸ ihu
  | sub _ _ h ihu _ => exact Fixed.type_of_sub h ▸ ihu
  | mul _ _ h ihu _ => exact Fixed.type_of_mul h ▸ ihu
  | neg _ h ihu => exact Fixed.type_of_neg h ▸ ihu
  | abs _ h ihu => exact Fixed.type_of_abs h ▸ ihu

theorem Made.writable (h : Made v) : v.format.Writable := h.issued.writable

/-- The values that come of a double by rounding alone, once or several times. -/
inductive FromDouble : Fixed → Prop
  | bound {f : Format} {x : Binary64} {v : Fixed} : Bound f x v → FromDouble v
  | reformatted {u v : Fixed} {f : Format} : FromDouble u → Reformatted u f v → FromDouble v

/-- What a double rounds to is a double, in whatever format. -/
theorem FromDouble.representable (h : FromDouble v) : Binary64.Representable v.toRat := by
  induction h with
  | @bound f x v h => exact h.rounds.representable (Binary64.representable_toRat x)
  | reformatted _ h ih => exact h.rounds.representable ih

end BinaryPoint.Binder
