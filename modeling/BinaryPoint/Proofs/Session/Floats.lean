import BinaryPoint.Proofs.Binder.Made
import BinaryPoint.Proofs.Binder.RoundTrips
import BinaryPoint.Proofs.Session.Reachable
import BinaryPoint.Proofs.Storage

/-! # Typed values over doubles

An adapter over doubles stores the double that is nearest to a value, and binds it again when the
value is read. So a value comes back just if it is a double. Every value that came of a double by
rounding alone is one, and so is every value of a format of at most 53 bits besides the sign; but
a sum may have more bits than a double, and then another value is read.

* `valueAt`: what is read through an adapter, as a value;
* `run_writeAt_floats`, `run_valueAt_floats`: what writing and reading come to;
* `floats_read_back`: what is read after a write, at the same place and at the others.
-/

namespace BinaryPoint

open Binary64

namespace Binder

/-- The double of a value is bound to every type of its format. -/
theorem exists_roundTo_toReal (v : Fixed) {t : ValueType} (ht : t.format = v.format) :
    ∃ w, roundTo t v.toReal = .ok w ∧ w.format = v.format ∧
      w.raw = halfUp v.toReal.toRat v.format.fractionalBits := by
  obtain ⟨hfinite, hlow, hhigh⟩ := v.toReal_bounds
  have hcovers : v.format.Covers v.toReal.toRat := ⟨hlow, hhigh⟩
  have hholds : t.format.Holds (halfUp v.toReal.toRat t.format.fractionalBits) := by
    rw [ht, Format.holds_iff_covers]
    exact hcovers.halfUp _
  obtain ⟨w, hw⟩ := exists_roundTo_iff.mpr ⟨hfinite, hholds⟩
  obtain ⟨hformat, hraw⟩ := rounds_of_roundTo hw
  rw [ht] at hformat hraw
  exact ⟨w, hw, hformat, hraw⟩

end Binder

namespace Session

open Binder

variable {α : Type} {s s' : State} {handle : ℕ} {store : Store} {binder : String} {d : Format}
  {i j : ℤ}

/-! ## Work on a cache -/

/-- Work with a binder comes to what it comes to on the cache of the binder, if there is one. -/
theorem run_withBinder_fst (name : String) (work : Binder → Binding α) (s : State) :
    ((withBinder name work).run s).1 =
      match s.binders.find? (·.1 = name) with
      | some e => ((work e.2).runOn ((s.caches[e.2.origin]?).getD {})).1
      | none => refuse (.noKey (.text name)) := by
  have hget (f : State → Run Binder) : (get >>= f).run s = (f s).run s := rfl
  rw [withBinder, runState_bind, binderOf, hget]
  cases s.binders.find? (·.1 = name) <;> rfl

/-- Binding in a session is rounding to the type that the binder has for the format. -/
theorem run_bindNumber_fst (name : String) (d : Descriptor) (x : Except Fault Binary64)
    (s : State) :
    ((withBinder name fun b => b.bindNumber d x).run s).1 =
      ((withBinder name fun b => b.typeFor d).run s).1.bind fun t => x.bind (roundTo t) := by
  rw [run_withBinder_fst, run_withBinder_fst]
  split
  · exact Binding.runOn_bind_of_fst _ _
  · rfl

/-- The type that a binder has for a format in a sound state is of that format. -/
theorem format_of_run_typeFor (hs : s.Sound) {t : ValueType}
    (h : ((withBinder binder fun b => b.typeFor d).run s).1 = .ok t) : t.format = d := by
  rw [run_withBinder_fst] at h
  split at h
  · next e he =>
    -- in a sound state the binder has its cache, which keeps each type under its own format
    have horigin := hs.origins e (List.mem_of_find?_eq_some he)
    rw [List.getElem?_eq_getElem horigin, Option.getD_some] at h
    have hgood := hs.caches e.2.origin _ (List.getElem?_eq_getElem horigin)
    have htyped : Typed s.caches[e.2.origin] := fun f t ht => (format_of_get? hgood ht).1
    exact (typed_typeForFormat e.2 d _ htyped).2 t h
  · exact absurd h (refuse_ne_ok _ _)

/-! ## Reading and writing -/

/-- What is read through an adapter, as a value. -/
def valueAt (a : Adapter) (index : ℤ) : Run Fixed := do Run.of (← readAt a index).typed

/-- Writing a value over doubles is writing its double, as a new object, to the store. -/
theorem run_writeAt_floats (h : s.stores[handle]? = some store) (desc : Descriptor) (v : Fixed)
    (serial : ℕ) :
    (writeAt (.floats (.store handle) binder desc) i (.fixed v serial)).run s =
      match store.write i (.plain (.real v.toReal) s.serial) with
      | .ok store' =>
        (.ok (), { s with stores := s.stores.set handle store', serial := s.serial + 1 })
      | .error e => (.error e, { s with serial := s.serial + 1 }) := by
  have hstore : (s.stores[handle]?).getD (.sequence []) = store := by rw [h, Option.getD_some]
  subst hstore
  show (Run.of (((s.stores[handle]?).getD (.sequence [])).write i
      (.plain (.real v.toReal) s.serial)) >>= fun store =>
    (modify fun s => { s with stores := s.stores.set handle store } : Run Unit)).run
      { s with serial := s.serial + 1 } = _
  cases ((s.stores[handle]?).getD (.sequence [])).write i (.plain (.real v.toReal) s.serial) <;>
    rfl

/-- Reading over doubles is rounding what the store has at the index to the type of the format. -/
theorem run_valueAt_floats (h : s.stores[handle]? = some store) (desc : Descriptor) (j : ℤ) :
    ((valueAt (.floats (.store handle) binder desc) j).run s).1 =
      (store.read j).bind fun o =>
        ((withBinder binder fun b => b.typeFor desc).run s).1.bind fun t =>
          o.toReal.bind (roundTo t) := by
  have hread : (readAt (.store handle) j).run s = (store.read j, s) := by
    have hstore : (s.stores[handle]?).getD (.sequence []) = store := by rw [h, Option.getD_some]
    rw [← hstore]
    rfl
  rw [valueAt, runState_bind, readAt, runState_bind, hread]
  cases store.read j with
  | error e => rfl
  | ok o =>
    -- what was read is bound, and the type comes from the binder
    have hbind := run_bindNumber_fst binder desc o.toReal s
    dsimp only
    rw [bindOperand, runState_bind]
    rcases hrun : (withBinder binder fun b => b.bindNumber desc o.toReal).run s with ⟨_ | w, s'⟩
    all_goals
      rw [hrun] at hbind
      exact hbind

/-! ## Reading after writing -/

/-- The state after a store was given another content through an adapter over doubles. -/
def rewritten (s : State) (handle : ℕ) (store' : Store) : State :=
  { s with stores := s.stores.set handle store', serial := s.serial + 1 }

/-- Work with a binder depends on the binders and caches of a session, which are the same then. -/
theorem run_withBinder_rewritten (name : String) (work : Binder → Binding α) (s : State)
    (handle : ℕ) (store' : Store) :
    ((withBinder name work).run (rewritten s handle store')).1 = ((withBinder name work).run s).1 := by
  rw [run_withBinder_fst, run_withBinder_fst]
  rfl

/-- A write succeeds as the write of the double to the store does. -/
theorem run_writeAt_floats_eq_ok_iff (h : s.stores[handle]? = some store) (desc : Descriptor)
    (v : Fixed) (serial : ℕ) :
    (writeAt (.floats (.store handle) binder desc) i (.fixed v serial)).run s = (.ok (), s') ↔
      ∃ store', store.write i (.plain (.real v.toReal) s.serial) = .ok store' ∧
        s' = rewritten s handle store' := by
  rw [run_writeAt_floats h]
  cases store.write i (.plain (.real v.toReal) s.serial) with
  | error e =>
    constructor
    · rintro ⟨⟩
    · rintro ⟨_, ⟨⟩, -⟩
  | ok store' =>
    constructor
    · rintro ⟨⟩
      exact ⟨store', rfl, rfl⟩
    · rintro ⟨_, ⟨⟩, rfl⟩
      rfl

/-- The binder has the type that it had before the write, and the store is the new one. -/
theorem run_valueAt_rewritten (h : s.stores[handle]? = some store) {t : ValueType}
    (ht : ((withBinder binder fun b => b.typeFor d).run s).1 = .ok t) (store' : Store) (j : ℤ) :
    ((valueAt (.floats (.store handle) binder (.format d)) j).run (rewritten s handle store')).1 =
      (store'.read j).bind fun o => o.toReal.bind (roundTo t) := by
  have hstore : (rewritten s handle store').stores[handle]? = some store' :=
    List.getElem?_set_self (List.getElem?_eq_some_iff.mp h).1
  rw [run_valueAt_floats hstore, run_withBinder_rewritten, ht]
  rfl

/-- Where a double was written, it is rounded to that type. -/
theorem run_valueAt_of_write (h : s.stores[handle]? = some store) {t : ValueType}
    (ht : ((withBinder binder fun b => b.typeFor d).run s).1 = .ok t) {x : Binary64} {serial : ℕ}
    {store' : Store} (hput : store.write i (.plain (.real x) serial) = .ok store')
    (hij : store.SamePlace i j) :
    ((valueAt (.floats (.store handle) binder (.format d)) j).run (rewritten s handle store')).1 =
      roundTo t x := by
  rw [run_valueAt_rewritten h ht, Store.read_of_write hput hij]
  rfl

/-- **An adapter over doubles gives back the double of what was written.** In every state that a
session can come to, a value of the adapter's format can be written wherever the store takes a
double. Afterwards each index of that place reads a value of the format, the one to which the
double nearest to the written value is bound. It equals that value just if the value is a double,
as it is if it came of a double by rounding alone, or if the format has at most 53 bits besides
the sign. All other indexes read what they read before. -/
theorem floats_read_back (setups : List Setup) (steps : List Step) (handle : ℕ) (store : Store)
    (binder : String) (d : Format) (t : ValueType) (i : ℤ) (v : Fixed) (serial : ℕ)
    (hstore : (after steps (start setups)).stores[handle]? = some store)
    (htype : ((withBinder binder fun b => b.typeFor d).run (after steps (start setups))).1 = .ok t)
    (hformat : v.format = d) :
    let s := after steps (start setups)
    let a : Adapter := .floats (.store handle) binder (.format d)
    ((∃ s', (writeAt a i (.fixed v serial)).run s = (.ok (), s')) ↔ store.TakesPlain i) ∧
    ∀ s', (writeAt a i (.fixed v serial)).run s = (.ok (), s') →
      (∀ j, store.SamePlace i j →
        ∃ w, ((valueAt a j).run s').1 = .ok w ∧ w.format = d ∧
          w.raw = halfUp (unbind v).toRat d.fractionalBits ∧
          (w.eq v ↔ Representable v.toRat) ∧
          (FromDouble v ∨ d.integerBits + d.fractionalBits ≤ 53 → w.eq v)) ∧
      ∀ j, ¬ store.SamePlace i j → ((valueAt a j).run s').1 = ((valueAt a j).run s).1 := by
  intro s a
  have hs : s.Sound := sound_after (sound_start setups) steps
  have ht : t.format = v.format := (format_of_run_typeFor hs htype).trans hformat.symm
  constructor
  · -- writing the value is writing its double to the store
    rw [← Store.exists_write_plain_iff (.real v.toReal) s.serial]
    constructor
    · rintro ⟨s', hwrite⟩
      obtain ⟨store', hput, -⟩ := (run_writeAt_floats_eq_ok_iff hstore _ v serial).mp hwrite
      exact ⟨store', hput⟩
    · rintro ⟨store', hput⟩
      exact ⟨_, (run_writeAt_floats_eq_ok_iff hstore _ v serial).mpr ⟨store', hput, rfl⟩⟩
  · intro s' hwrite
    obtain ⟨store', hput, rfl⟩ := (run_writeAt_floats_eq_ok_iff hstore _ v serial).mp hwrite
    refine ⟨fun j hij => ?_, fun j hij => ?_⟩
    · -- the double of the value is in range of the type, and what is open is whether it is the value
      obtain ⟨w, hw, hwformat, hraw⟩ := exists_roundTo_toReal v ht
      have hequal : w.eq v ↔ Representable v.toRat := by
        rw [Fixed.eq_iff, and_iff_right hwformat, hraw, Fixed.halfUp_toReal_eq_iff]
      rw [hformat] at hwformat hraw
      refine ⟨w, ?_, hwformat, hraw, hequal, fun hv => hequal.mpr ?_⟩
      · rw [run_valueAt_of_write hstore htype hput hij, hw]
      · rcases hv with hv | hbits
        · exact hv.representable
        · exact Fixed.representable_of_bits_le (hformat ▸ hbits)
    · -- another index finds what the store had there before
      rw [run_valueAt_rewritten hstore htype, Store.read_of_write_of_not hput hij,
        run_valueAt_floats hstore, htype]
      rfl

/-- The steps that put up a row of two zeros. -/
def zeros : List Step :=
  [{ action := .sequence (List.replicate 2 (.value (.real (.zero false)))), target := "zeros" }]

/-- They lead to a store with two places. -/
theorem exists_store_zeros :
    ∃ store, (after zeros (start [])).stores[0]? = some store ∧
      ∀ j, (store.TakesPlain j ↔ (slot? 2 j).isSome) ∧
        (store.SamePlace 1 j ↔ slot? 2 1 = slot? 2 j) :=
  ⟨_, rfl, fun _ => ⟨Iff.rfl, Iff.rfl⟩⟩

/-- Over two zeros, a half in a format of 54 bits comes back at both indexes of its place, while
the other zero stays. The sum of that and the least value of the format needs 54 bits, and a half
comes back. -/
theorem floats_read_back_zeros :
    let d : Format := ⟨false, 0, 54⟩
    let half : Fixed := ⟨⟨d, 1, by decide⟩, 2 ^ 53, by decide +kernel⟩
    let sum : Fixed := ⟨⟨d, 1, by decide⟩, 2 ^ 53 + 1, by decide +kernel⟩
    let s := after zeros (start [])
    let a : Adapter := .floats (.store 0) usualBinder (.format d)
    FromDouble half ∧
      (∃ s', (writeAt a 1 (.fixed half 9)).run s = (.ok (), s') ∧
        (∀ j ∈ [1, -1], ∃ w, ((valueAt a j).run s').1 = .ok w ∧ w.eq half) ∧
        ((valueAt a 0).run s').1 = ((valueAt a 0).run s).1) ∧
      ∃ s', (writeAt a 1 (.fixed sum 9)).run s = (.ok (), s') ∧
        ∃ w, ((valueAt a 1).run s').1 = .ok w ∧ w.eq half := by
  intro d half sum s a
  obtain ⟨store, hstore, hplaces⟩ := exists_store_zeros
  have htype : ((withBinder usualBinder fun b => b.typeFor d).run s).1 =
      .ok ⟨d, 1, by decide⟩ := eq_ok_of_toOption (by decide +kernel)
  have htakes : store.TakesPlain 1 := (hplaces 1).1.mpr (by decide)
  have hhalf : FromDouble half := .bound (f := d) (x := .ofRatio false 1 2)
    ⟨⟨.int 1024, 1⟩, {}, .empty, eq_ok_of_toOption (by decide +kernel)⟩
  refine ⟨hhalf, ?_, ?_⟩
  · obtain ⟨hwrites, hreads⟩ := floats_read_back [] zeros 0 _ _ d _ 1 half 9 hstore htype rfl
    obtain ⟨s', hwrite⟩ := hwrites.mpr htakes
    obtain ⟨hback, hothers⟩ := hreads s' hwrite
    -- one from the end is the last of two
    have hsame : ∀ j ∈ [1, -1], slot? 2 1 = slot? 2 j := by decide
    refine ⟨s', hwrite, fun j hj => ?_, hothers 0 (mt (hplaces 0).2.mp (by decide))⟩
    obtain ⟨w, hw, -, -, -, hequal⟩ := hback j ((hplaces j).2.mpr (hsame j hj))
    exact ⟨w, hw, hequal (.inl hhalf)⟩
  · obtain ⟨hwrites, hreads⟩ := floats_read_back [] zeros 0 _ _ d _ 1 sum 9 hstore htype rfl
    obtain ⟨s', hwrite⟩ := hwrites.mpr htakes
    obtain ⟨w, hw, hformat, hraw, -⟩ := (hreads s' hwrite).1 1 ((hplaces 1).2.mpr rfl)
    refine ⟨s', hwrite, w, hw, Fixed.eq_iff.mpr ⟨hformat, hraw.trans ?_⟩⟩
    decide +kernel

/-- Not every value that was made and written over doubles is read back. -/
theorem not_forall_read_back :
    ¬ ∀ (setups : List Setup) (steps : List Step) (handle : ℕ) (store : Store) (binder : String)
      (d : Format) (t : ValueType) (i : ℤ) (v : Fixed) (serial : ℕ) (s' : State),
      let s := after steps (start setups)
      let a : Adapter := .floats (.store handle) binder (.format d)
      s.stores[handle]? = some store →
        ((withBinder binder fun b => b.typeFor d).run s).1 = .ok t → v.format = d → Made v →
        (writeAt a i (.fixed v serial)).run s = (.ok (), s') →
        ∃ w, ((valueAt a i).run s').1 = .ok w ∧ w.eq v := by
  intro hall
  let d : Format := ⟨false, 0, 54⟩
  let value (n : ℤ) (h : d.Holds n) : Fixed := ⟨⟨d, 1, by decide⟩, n, h⟩
  let half := value (2 ^ 53) (by decide +kernel)
  let least := value 1 (by decide +kernel)
  let sum := value (2 ^ 53 + 1) (by decide +kernel)
  let s := after zeros (start [])
  have hhalf : Made half := .bound (f := d) (x := .ofRatio false 1 2)
    ⟨⟨.int 1024, 1⟩, {}, .empty, eq_ok_of_toOption (by decide +kernel)⟩
  have hleast : Made least := .bound (f := d) (x := .ofRatio false 1 (2 ^ 54))
    ⟨⟨.int 1024, 1⟩, {}, .empty, eq_ok_of_toOption (by decide +kernel)⟩
  have hsum : Made sum := .add hhalf hleast (eq_ok_of_toOption (by decide +kernel))
  obtain ⟨store, hstore, hplaces⟩ := exists_store_zeros
  have htype : ((withBinder usualBinder fun b => b.typeFor d).run s).1 =
      .ok ⟨d, 1, by decide⟩ := eq_ok_of_toOption (by decide +kernel)
  obtain ⟨store', hput⟩ := (Store.exists_write_plain_iff (.real sum.toReal) s.serial).mpr
    ((hplaces 1).1.mpr (by decide))
  obtain ⟨w, hw, hequal⟩ := hall [] zeros 0 _ usualBinder d _ 1 sum 9 _ hstore htype rfl hsum
    ((run_writeAt_floats_eq_ok_iff hstore _ sum 9).mpr ⟨store', hput, rfl⟩)
  rw [run_valueAt_of_write hstore htype hput ((hplaces 1).2.mpr rfl)] at hw
  -- the sum is between two doubles, of which the half is the even one
  have hrounded : roundTo ⟨d, 1, by decide⟩ sum.toReal = .ok half :=
    eq_ok_of_toOption (by decide +kernel)
  rw [← Except.ok.inj (hrounded.symm.trans hw)] at hequal
  exact absurd hequal (by decide +kernel)

end Session

end BinaryPoint
