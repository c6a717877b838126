import BinaryPoint.Proofs.Binder.Binding
import BinaryPoint.Proofs.Cache

/-! # What a cache answers

A binder that asks for the type of a format is told the type that the cache keeps, or else what
it can make itself. Asking changes the cache, but no answer: what is kept from then on is what
was made before. So a computation on a cache does not depend on what was asked earlier.

* `Binder.answer`: the answer for a format, and `Agrees`, caches with the same answers;
* `Binding.Steady`: computations that see a cache only through its answers, and leave these as
  they are, with a rule for each way to put computations together;
* `steady_bind`, `steady_reformat`: rounding is such a computation.
-/

namespace BinaryPoint.Binder

variable {α β : Type} {b : Binder} {cache cache' : Cache ValueType}

/-- The answer to a request for the type of a format. -/
def answer (b : Binder) (cache : Cache ValueType) (f : Format) : Except Fault ValueType :=
  match cache.get? f with
  | some t => .ok t
  | none => b.synthesize f

/-- Two caches that give a binder the same answers. -/
def Agrees (b : Binder) (cache cache' : Cache ValueType) : Prop :=
  ∀ f, b.answer cache f = b.answer cache' f

namespace Agrees

protected theorem refl : b.Agrees cache cache := fun _ => rfl

protected theorem symm (h : b.Agrees cache cache') : b.Agrees cache' cache := fun f => (h f).symm

protected theorem trans {cache'' : Cache ValueType} (h : b.Agrees cache cache')
    (h' : b.Agrees cache' cache'') : b.Agrees cache cache'' := fun f => (h f).trans (h' f)

end Agrees

/-! ## One request -/

/-- A request comes to the answer for its format. -/
theorem runOn_typeForFormat_fst (b : Binder) (f : Format) (cache : Cache ValueType) :
    ((b.typeForFormat f).runOn cache).1 = b.answer cache f := by
  rw [answer]
  cases hget : cache.get? f with
  | some t => simp only [Binding.runOn, ExceptT.run, typeForFormat, Cache.getOrCreate_of_some hget]
  | none =>
    simp only [Binding.runOn, ExceptT.run, typeForFormat, Cache.getOrCreate_of_none hget]
    cases b.synthesize f <;> rfl

/-- A request changes no answer. -/
theorem agrees_typeForFormat (b : Binder) (f : Format) (cache : Cache ValueType) :
    b.Agrees ((b.typeForFormat f).runOn cache).2 cache := by
  intro g
  -- a request leaves the cache as the cache's own request does
  have hcache : ((b.typeForFormat f).runOn cache).2 =
      (cache.getOrCreate f fun f => (b.synthesize f).map some).2 := by
    simp only [Binding.runOn, ExceptT.run, typeForFormat]
    rcases cache.getOrCreate f fun f => (b.synthesize f).map some with ⟨_ | _ | _, _⟩ <;> rfl
  by_cases hfg : f = g
  · -- what is kept for the format now is what was made for it
    subst hfg
    have hkept : (cache.getOrCreate f fun f => (b.synthesize f).map some).2.get? f =
        ((cache.getOrCreate f fun f => (b.synthesize f).map some).1.toOption).join :=
      Cache.get?_getOrCreate_self
    rw [answer, answer, hcache, hkept]
    cases hget : cache.get? f with
    | some t => simp [Cache.getOrCreate_of_some hget, Except.toOption]
    | none =>
      rw [Cache.getOrCreate_of_none hget]
      cases hmake : b.synthesize f <;> simp [Except.toOption, Except.map]
  · -- nothing is kept for another format
    rw [answer, answer, hcache, Cache.get?_getOrCreate_of_ne hfg]

namespace Binding

/-! ## Computations -/

/-- From caches with the same answers the computation comes to the same, and it changes none
of the answers. -/
def Steady (b : Binder) (x : Binding α) : Prop :=
  (∀ cache cache', b.Agrees cache cache' → (x.runOn cache).1 = (x.runOn cache').1) ∧
    ∀ cache, b.Agrees (x.runOn cache).2 cache

namespace Steady

protected theorem pure (a : α) : Steady b (pure a : Binding α) :=
  ⟨fun _ _ _ => rfl, fun _ => .refl⟩

protected theorem of (x : Except Fault α) : Steady b (of x) :=
  ⟨fun _ _ _ => rfl, fun _ => .refl⟩

protected theorem typeForFormat (f : Format) : Steady b (b.typeForFormat f) := by
  refine ⟨fun cache cache' h => ?_, agrees_typeForFormat b f⟩
  rw [runOn_typeForFormat_fst, runOn_typeForFormat_fst]
  exact h f

protected theorem bind {x : Binding α} {f : α → Binding β} (hx : Steady b x)
    (hf : ∀ a, Steady b (f a)) : Steady b (x >>= f) := by
  constructor
  · -- from caches that agree both runs fail alike or go on with the same value
    intro cache cache' h
    have hfirst := hx.1 cache cache' h
    have hkeeps := hx.2 cache
    have hkeeps' := hx.2 cache'
    rw [runOn_bind, runOn_bind]
    rcases hrun : x.runOn cache with ⟨e | a, between⟩ <;>
      rcases hrun' : x.runOn cache' with ⟨e' | a', between'⟩ <;>
      rw [hrun, hrun'] at hfirst <;> cases hfirst
    · rfl
    · -- the second step starts from caches that agree as the first ones did
      rw [hrun] at hkeeps
      rw [hrun'] at hkeeps'
      exact (hf a).1 between between' ((hkeeps.trans h).trans hkeeps'.symm)
  · intro cache
    -- and each step keeps the cache in agreement
    have hkeeps := hx.2 cache
    rw [runOn_bind]
    rcases hrun : x.runOn cache with ⟨e | a, between⟩ <;> rw [hrun] at hkeeps
    · exact hkeeps
    · exact ((hf a).2 between).trans hkeeps

protected theorem mapM {f : α → Binding β} {xs : List α} (hf : ∀ x, Steady b (f x)) :
    Steady b (xs.mapM f) := by
  induction xs with
  | nil => exact .pure []
  | cons x xs ih =>
    rw [List.mapM_cons]
    exact (hf x).bind fun y => ih.bind fun ys => .pure (y :: ys)

/-- Such computations in a row come to what each of them comes to by itself. -/
theorem runOn_mapM {f : α → Binding β} {xs : List α} (hf : ∀ x, Steady b (f x)) :
    ((xs.mapM f).runOn cache).1 = xs.mapM fun x => ((f x).runOn cache).1 := by
  induction xs generalizing cache with
  | nil => rfl
  | cons x xs ih =>
    have hkeeps := (hf x).2 cache
    rw [List.mapM_cons, List.mapM_cons, runOn_bind]
    rcases hrun : (f x).runOn cache with ⟨e | y, between⟩
    · rfl
    · -- what the first one leaves is as good as the cache that it started from
      rw [hrun] at hkeeps
      have hrest := @ih between
      simp only [(hf _).1 between cache hkeeps] at hrest
      simp only [ok_bind, ← hrest]
      exact runOn_bind_of_fst _ _

end Steady

end Binding

open Binding (Steady)

/-! ## Rounding -/

theorem steady_typeFor (b : Binder) (d : Descriptor) : Steady b (b.typeFor d) := by
  cases d with
  | format f => exact .typeForFormat f
  | other v => exact .of _

/-- A request after such a computation has the answer that it had before. -/
theorem Binding.Steady.runOn_typeFor {x : Binding α} (hx : Steady b x) (d : Descriptor) :
    ((b.typeFor d).runOn (x.runOn cache).2).1 = ((b.typeFor d).runOn cache).1 :=
  (steady_typeFor b d).1 _ _ (hx.2 cache)

theorem steady_bind (b : Binder) (d : Descriptor) (x : Binary64) : Steady b (b.bind d x) :=
  (steady_typeFor b d).bind fun t => .of (roundTo t x)

theorem steady_reformat (b : Binder) (v : Fixed) (d : Descriptor) : Steady b (b.reformat v d) :=
  (steady_typeFor b d).bind fun _ => .of _

end BinaryPoint.Binder
