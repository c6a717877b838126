import BinaryPoint.Binder
import BinaryPoint.Proofs.Outcome

/-! # Runs of computations on a cache

What a computation returns and what cache it leaves are told by its run. `Ensures`
states both at once: a property of caches that the computation keeps, whether it
fails or not, and a property of what it returns. It goes through every way of
putting computations together, so that a property of a whole build comes down to
the one step that writes to the cache.
-/

namespace BinaryPoint.Binder.Binding

variable {α β : Type} {cache : Cache ValueType}

/-! ## Runs -/

@[simp] theorem runOn_pure (a : α) : (pure a : Binding α).runOn cache = (.ok a, cache) := rfl

@[simp] theorem runOn_of (x : Except Fault α) : (of x).runOn cache = (x, cache) := rfl

@[simp] theorem runOn_throw (f : Fault) :
    (throw f : Binding α).runOn cache = (.error f, cache) := rfl

@[simp] theorem runOn_outcome (x : Binding α) :
    x.outcome.runOn cache = (.ok (x.runOn cache).1, (x.runOn cache).2) := rfl

/-- The second step runs where the first one stopped, if that returned. -/
theorem runOn_bind (x : Binding α) (f : α → Binding β) :
    (x >>= f).runOn cache =
      match x.runOn cache with
      | (.ok a, cache') => (f a).runOn cache'
      | (.error e, cache') => (.error e, cache') := by
  show (ExceptT.bindCont f (x.runOn cache).1).run (x.runOn cache).2 = _
  rcases x.runOn cache with ⟨_ | _, _⟩ <;> rfl

/-- Where the second step leaves the cache alone, the outcome is told from that of the first. -/
theorem runOn_bind_of_fst (x : Binding α) (g : α → Except Fault β) :
    ((x >>= fun a => of (g a)).runOn cache).1 = (x.runOn cache).1 >>= g := by
  rw [runOn_bind]
  rcases x.runOn cache with ⟨e | a, cache'⟩ <;> rfl

@[simp] theorem of_ok_bind (a : α) (f : α → Binding β) : (of (.ok a) >>= f) = f a := rfl

/-! ## What a computation keeps and what it returns -/

/-- Started where `P` holds, the computation stops where `P` holds, and if it returns then
what `Q` says. -/
def Ensures (P : Cache ValueType → Prop) (x : Binding α) (Q : α → Prop) : Prop :=
  ∀ cache, P cache → P (x.runOn cache).2 ∧ ∀ a, (x.runOn cache).1 = .ok a → Q a

namespace Ensures

variable {P : Cache ValueType → Prop} {Q : α → Prop} {R : β → Prop}

protected theorem pure {a : α} (h : Q a) : Ensures P (pure a) Q := by
  intro cache hcache
  refine ⟨hcache, ?_⟩
  rintro _ ⟨⟩
  exact h

protected theorem of {x : Except Fault α} (h : ∀ a, x = .ok a → Q a) : Ensures P (of x) Q :=
  fun _ hcache => ⟨hcache, h⟩

protected theorem throw {f : Fault} : Ensures P (throw f : Binding α) Q := by
  intro cache hcache
  refine ⟨hcache, ?_⟩
  rintro _ ⟨⟩

protected theorem bind {x : Binding α} {f : α → Binding β} (hx : Ensures P x Q)
    (hf : ∀ a, Q a → Ensures P (f a) R) : Ensures P (x >>= f) R := by
  intro cache hcache
  obtain ⟨hkeeps, hreturns⟩ := hx cache hcache
  rw [runOn_bind]
  rcases hrun : x.runOn cache with ⟨e | a, between⟩
  · rw [hrun] at hkeeps
    refine ⟨hkeeps, ?_⟩
    rintro _ ⟨⟩
  · rw [hrun] at hkeeps hreturns
    exact hf a (hreturns a rfl) between hkeeps

/-- What a step that leaves the cache alone returned is known to the rest. -/
theorem of_bind {x : Except Fault α} {f : α → Binding β}
    (hf : ∀ a, x = .ok a → Ensures P (f a) R) : Ensures P (of x >>= f) R :=
  Ensures.bind (.of fun _ h => h) hf

/-- Looking at the outcome does not change what a computation keeps. -/
protected theorem outcome {x : Binding α} (hx : Ensures P x Q) :
    Ensures P x.outcome fun r => ∀ a, r = .ok a → Q a := by
  intro cache hcache
  obtain ⟨hkeeps, hreturns⟩ := hx cache hcache
  refine ⟨hkeeps, ?_⟩
  rintro _ ⟨⟩
  exact hreturns

/-- One computation for each item of a list returns results that correspond to the items. -/
protected theorem mapM {xs : List α} {f : α → Binding β} {R : α → β → Prop}
    (hf : ∀ x ∈ xs, Ensures P (f x) (R x)) : Ensures P (xs.mapM f) (List.Forall₂ R xs) := by
  induction xs with
  | nil => exact .pure .nil
  | cons x xs ih =>
    rw [List.mapM_cons]
    apply Ensures.bind (hf x (by simp))
    intro y hy
    apply Ensures.bind (ih fun z hz => hf z (by simp [hz]))
    intro ys hys
    exact .pure (.cons hy hys)

/-- Nothing is asked of the caches, nor of the result. -/
theorem any {x : Binding α} : Ensures (fun _ => True) x fun _ => True :=
  fun _ _ => ⟨trivial, fun _ _ => trivial⟩

theorem mono {x : Binding α} {Q' : α → Prop} (hx : Ensures P x Q) (h : ∀ a, Q a → Q' a) :
    Ensures P x Q' :=
  fun cache hcache => ⟨(hx cache hcache).1, fun a ha => h a ((hx cache hcache).2 a ha)⟩

end Ensures

end BinaryPoint.Binder.Binding
