import BinaryPoint.Proofs.Outcome

/-! # Computations whose state only grows

A computation may fail and has a state, which it leaves behind in either case. Where states
only grow, what was found out about an early one is still true of a later one. A `Growth` says
which states are good and which of them may follow each other, and `Growth.Yields` says of a
computation that it keeps to that, and what it returns. It goes through every way of putting
computations together.
-/

namespace BinaryPoint

/-- The second step runs where the first one stopped, if that returned. -/
theorem runState_bind {σ α β : Type} (x : ExceptT Fault (StateM σ) α)
    (f : α → ExceptT Fault (StateM σ) β) (s : σ) :
    (x >>= f).run s =
      match x.run s with
      | (.ok a, s') => (f a).run s'
      | (.error e, s') => (.error e, s') := by
  show (ExceptT.bindCont f (x.run s).1).run (x.run s).2 = _
  rcases x.run s with ⟨_ | _, _⟩ <;> rfl

/-- Which states are good, and which may follow each other. -/
structure Growth (σ : Type) where
  Good : σ → Prop
  Le : σ → σ → Prop
  refl : ∀ s, Le s s
  trans : ∀ {s s' s''}, Le s s' → Le s' s'' → Le s s''

namespace Growth

variable {σ α β : Type} {G : Growth σ} {s : σ}

/-- Started in a good state, the computation stops in a good one that follows it, and what it
returns is related to that as `Q` says. -/
def Yields (G : Growth σ) (s : σ) (x : ExceptT Fault (StateM σ) α) (Q : σ → α → Prop) : Prop :=
  G.Good s → G.Good (x.run s).2 ∧ G.Le s (x.run s).2 ∧ ∀ a, (x.run s).1 = .ok a → Q (x.run s).2 a

/-- A fact about results that later states do not change. -/
def Stable (G : Growth σ) (Q : σ → α → Prop) : Prop := ∀ s s' a, G.Le s s' → Q s a → Q s' a

theorem Stable.all {Q : σ → α → Prop} (h : G.Stable Q) :
    G.Stable fun s (as : List α) => ∀ a ∈ as, Q s a :=
  fun s s' _ hle has a ha => h s s' a hle (has a ha)

namespace Yields

variable {x : ExceptT Fault (StateM σ) α} {Q Q' : σ → α → Prop} {R : σ → β → Prop}

protected theorem pure {a : α} (h : G.Good s → Q s a) : G.Yields s (pure a) Q := by
  intro hs
  refine ⟨hs, G.refl s, ?_⟩
  rintro _ ⟨⟩
  exact h hs

/-- A computation that leaves the state alone. -/
protected theorem of {r : Except Fault α} (h : G.Good s → ∀ a, r = .ok a → Q s a) :
    G.Yields s (.mk (pure r)) Q :=
  fun hs => ⟨hs, G.refl s, h hs⟩

protected theorem throw {f : Fault} : G.Yields s (throw f) Q := by
  intro hs
  refine ⟨hs, G.refl s, ?_⟩
  rintro _ ⟨⟩

/-- Looking at the state. -/
protected theorem get : G.Yields s get fun s' a => a = s' := by
  intro hs
  refine ⟨hs, G.refl s, ?_⟩
  rintro _ ⟨⟩
  rfl

protected theorem bind {f : α → ExceptT Fault (StateM σ) β} (hx : G.Yields s x Q)
    (hf : ∀ s' a, G.Good s' → G.Le s s' → Q s' a → G.Yields s' (f a) R) :
    G.Yields s (x >>= f) R := by
  intro hs
  obtain ⟨hgood, hle, hreturns⟩ := hx hs
  rw [runState_bind]
  rcases hrun : x.run s with ⟨e | a, s'⟩
  · rw [hrun] at hgood hle
    refine ⟨hgood, hle, ?_⟩
    rintro _ ⟨⟩
  · rw [hrun] at hgood hle hreturns
    obtain ⟨hgood', hle', hreturns'⟩ := hf s' a hgood hle (hreturns a rfl) hgood
    exact ⟨hgood', G.trans hle hle', hreturns'⟩

theorem mono (hx : G.Yields s x Q) (h : ∀ s' a, G.Good s' → Q s' a → Q' s' a) :
    G.Yields s x Q' := by
  intro hs
  obtain ⟨hgood, hle, hreturns⟩ := hx hs
  exact ⟨hgood, hle, fun a ha => h _ a hgood (hreturns a ha)⟩

/-- Looking at the outcome does not change what a computation does. -/
protected theorem lift (hx : G.Yields s x Q) :
    G.Yields s (ExceptT.lift x.run) fun s' r => ∀ a, r = .ok a → Q s' a := by
  intro hs
  obtain ⟨hgood, hle, hreturns⟩ := hx hs
  refine ⟨hgood, hle, ?_⟩
  rintro _ ⟨⟩
  exact hreturns

/-- One computation for each item of a list. -/
protected theorem mapM {xs : List α} {f : α → ExceptT Fault (StateM σ) β} (hR : G.Stable R)
    (hf : ∀ s', G.Le s s' → ∀ x ∈ xs, G.Yields s' (f x) R) :
    G.Yields s (xs.mapM f) fun s' ys => ∀ y ∈ ys, R s' y := by
  induction xs generalizing s with
  | nil => exact .pure fun _ => List.forall_mem_nil _
  | cons x xs ih =>
    rw [List.mapM_cons]
    apply Yields.bind (hf s (G.refl s) x List.mem_cons_self)
    intro s' y _ hle hy
    apply Yields.bind (ih fun s'' hle' z hz => hf s'' (G.trans hle hle') z (.tail _ hz))
    intro s'' ys _ hle' hys
    exact .pure fun _ => List.forall_mem_cons.mpr ⟨hR s' s'' y hle' hy, hys⟩

/-- What each round of a fold keeps is kept by all of them. -/
protected theorem foldlM {xs : List α} {f : β → α → ExceptT Fault (StateM σ) β}
    (hf : ∀ s b, ∀ x ∈ xs, R s b → G.Yields s (f b x) R) {b : β} (hb : R s b) :
    G.Yields s (xs.foldlM f b) R := by
  induction xs generalizing s b with
  | nil => exact .pure fun _ => hb
  | cons x xs ih =>
    rw [List.foldlM_cons]
    apply Yields.bind (hf s b x List.mem_cons_self hb)
    intro s' b' _ _ hb'
    exact ih (fun s b y hy => hf s b y (.tail _ hy)) hb'

end Yields

end Growth

end BinaryPoint
