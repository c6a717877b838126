import BinaryPoint.Proofs.Binder.Binding
import BinaryPoint.Proofs.Cache

/-! # Value types from a shared cache

Caches start out empty and are written to by requests for value types only; the
caches that come about in this way are `Reached`. In all of them a format has a
type of that very format, or none yet. So the type that a binder returns is one
of the format that was asked for, whichever binder made it.
-/

namespace BinaryPoint.Binder

open Binding

/-! ## Reachable caches -/

/-- The caches that requests for value types lead to, whatever binders share them. -/
inductive Reached : Cache ValueType → Prop
  | empty : Reached {}
  | request {cache : Cache ValueType} (b : Binder) (d : Descriptor) :
      Reached cache → Reached ((b.typeFor d).runOn cache).2

/-- Each type is kept under its own format. -/
def Typed (cache : Cache ValueType) : Prop := ∀ f t, cache.get? f = some t → t.format = f

theorem synthesize_format {b : Binder} {f : Format} {t : ValueType}
    (h : b.synthesize f = .ok t) : t.format = f := by
  simp only [synthesize, bind_eq_ok] at h
  obtain ⟨tooWide, -, h⟩ := h
  split at h
  · simp at h
  · split at h
    · obtain ⟨name, -, ht⟩ := bind_eq_ok.mp h
      cases ht
      rfl
    · simp at h

/-! ## One request -/

/-- A type that is there is returned, whatever the limit of the binder. -/
theorem runOn_typeForFormat_of_some {cache : Cache ValueType} {f : Format} {t : ValueType}
    (b : Binder) (h : cache.get? f = some t) :
    (b.typeForFormat f).runOn cache = (.ok t, cache) := by
  simp only [runOn, ExceptT.run, typeForFormat, Cache.getOrCreate_of_some h]

/-- Where there is none, one is made and kept if the binder can make it. -/
theorem runOn_typeForFormat_of_none {cache : Cache ValueType} {f : Format} (b : Binder)
    (h : cache.get? f = none) :
    (b.typeForFormat f).runOn cache =
      match b.synthesize f with
      | .ok t => (.ok t, ((cache.enter f).record f (some t)).leave f)
      | .error e => (.error e, (cache.enter f).leave f) := by
  simp only [runOn, ExceptT.run, typeForFormat, Cache.getOrCreate_of_none h]
  cases b.synthesize f <;> rfl

/-- A request keeps every type under its own format, and returns one of that format. -/
theorem typed_typeForFormat (b : Binder) (f : Format) :
    Ensures Typed (b.typeForFormat f) (·.format = f) := by
  intro cache htyped
  cases hget : cache.get? f with
  | some t =>
    -- a type that was kept is under its format by assumption
    rw [runOn_typeForFormat_of_some b hget]
    refine ⟨htyped, ?_⟩
    rintro _ ⟨⟩
    exact htyped f t hget
  | none =>
    -- a failed attempt leaves nothing under the format
    rw [runOn_typeForFormat_of_none b hget]
    cases hmake : b.synthesize f with
    | error e =>
      refine ⟨htyped, ?_⟩
      rintro _ ⟨⟩
    | ok t =>
      have hformat : t.format = f := synthesize_format hmake
      refine ⟨?_, ?_⟩
      · -- the new type is under its format, the others are where they were
        intro g t' ht'
        rw [Cache.get?_leave] at ht'
        by_cases hg : f = g
        · subst hg
          rw [Cache.get?_record_self] at ht'
          cases ht'
          exact hformat
        · rw [Cache.get?_record_of_ne hg, Cache.get?_enter] at ht'
          exact htyped g t' ht'
      · rintro _ ⟨⟩
        exact hformat

theorem typed_typeFor (b : Binder) (d : Descriptor) :
    Ensures Typed (b.typeFor d) fun _ => True := by
  cases d with
  | format f => exact (typed_typeForFormat b f).mono fun _ _ => trivial
  | other v => exact .of fun _ _ => trivial

/-- In every reachable cache each type is kept under its own format. -/
theorem Reached.typed {cache : Cache ValueType} (h : Reached cache) : Typed cache := by
  induction h with
  | empty =>
    intro f t ht
    simp at ht
  | request b d _ ih => exact (typed_typeFor b d _ ih).1

/-! ## Requests on reachable caches -/

/-- A format's type is of that format, and the cache stays reachable. -/
theorem ensures_typeFor (b : Binder) (f : Format) :
    Ensures Reached (b.typeFor f) (·.format = f) := by
  intro cache h
  exact ⟨h.request b f, (typed_typeForFormat b f cache h.typed).2⟩

end BinaryPoint.Binder
