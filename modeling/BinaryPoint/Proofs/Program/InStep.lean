import BinaryPoint.Program.Stream
import Mathlib.Tactic.Common

/-! # Parsers in step

Two runs of parsers are compared that start on different streams: both give a value and
the values correspond, or both fail and the failures correspond, and what is left of the
streams corresponds as well.

* `Parser.run_bind` and the equations beside it: a run, step by step;
* `InStep`: runs that correspond, with a rule for each way to put parsers together.
-/

namespace BinaryPoint

/-! ## Runs -/

namespace Parser

variable {α β : Type}

@[simp] theorem run_pure (a : α) (s : Stream) : (pure a : Parser α).run s = .ok a s := rfl

theorem run_bind (x : Parser α) (f : α → Parser β) (s : Stream) :
    (x >>= f).run s =
      match x.run s with
      | .ok a s' => (f a).run s'
      | .error e s' => .error e s' := by
  show EStateM.bind x f s = _
  rw [EStateM.bind, EStateM.run]
  cases x s <;> rfl

@[simp] theorem run_peek (s : Stream) : peek.run s = .ok s.current s := rfl

@[simp] theorem run_next (s : Stream) : next.run s = .ok s.current s.advance := rfl

@[simp] theorem run_sees (kind : TokenKind) (s : Stream) :
    (sees kind).run s = .ok (decide (s.current.kind = kind)) s := rfl

@[simp] theorem run_skipNewlines (s : Stream) :
    skipNewlines.run s = .ok () s.skipNewlines := rfl

@[simp] theorem run_mismatch (wanted : Wanted) (found : Token) (s : Stream) :
    (mismatch wanted found : Parser α).run s = .error (.mismatch ⟨wanted, found⟩) s := rfl

@[simp] theorem run_throw (e : ParseFailure) (s : Stream) :
    (throw e : Parser α).run s = .error e s := rfl

theorem run_expect (kind : TokenKind) (wanted : Wanted) (s : Stream) :
    (expect kind wanted).run s =
      if s.current.kind = kind then .ok s.current s.advance
      else .error (.mismatch ⟨wanted, s.current⟩) s := by
  rw [expect, run_bind, run_peek]
  dsimp only
  split <;> rfl

theorem run_accept (kind : TokenKind) (s : Stream) :
    (accept kind).run s =
      if s.current.kind = kind then .ok true s.advance else .ok false s := by
  rw [accept, run_bind, run_sees]
  by_cases h : s.current.kind = kind
  · simp only [h, decide_true, if_true]
    rfl
  · simp only [h, decide_false, if_false]
    rfl

end Parser

/-! ## Outcomes that correspond -/

section InStep

variable {α β γ δ : Type}

/-- Results that correspond: both are values, or both are failures. -/
inductive Results (Q : α → β → Prop) (R : Stream → Stream → Prop)
    (E : ParseFailure → Stream → ParseFailure → Stream → Prop) :
    EStateM.Result ParseFailure Stream α → EStateM.Result ParseFailure Stream β → Prop
  | ok {a : α} {b : β} {s s' : Stream} (hvalue : Q a b) (hrest : R s s') :
      Results Q R E (.ok a s) (.ok b s')
  | error {f f' : ParseFailure} {s s' : Stream} (h : E f s f' s') :
      Results Q R E (.error f s) (.error f' s')

/-- Started on streams for which `P` holds, two parsers have results that correspond. -/
def InStep (P : Stream → Stream → Prop) (x : Parser α) (y : Parser β) (Q : α → β → Prop)
    (R : Stream → Stream → Prop) (E : ParseFailure → Stream → ParseFailure → Stream → Prop) :
    Prop :=
  ∀ s s', P s s' → Results Q R E (x.run s) (y.run s')

namespace InStep

variable {P P' R R' : Stream → Stream → Prop} {Q : α → β → Prop} {Q' : γ → δ → Prop}
  {E : ParseFailure → Stream → ParseFailure → Stream → Prop}

protected theorem pure {a : α} {b : β} (h : Q a b) : InStep P (pure a) (pure b) Q P E :=
  fun _ _ hs => .ok h hs

protected theorem bind {x : Parser α} {y : Parser β} {f : α → Parser γ} {g : β → Parser δ}
    (hx : InStep P x y Q R E) (hf : ∀ a b, Q a b → InStep R (f a) (g b) Q' R' E) :
    InStep P (x >>= f) (y >>= g) Q' R' E := by
  intro s s' hs
  rw [Parser.run_bind, Parser.run_bind]
  have hresults := hx s s' hs
  generalize x.run s = r, y.run s' = r' at hresults
  cases hresults with
  | ok hvalue hrest => exact hf _ _ hvalue _ _ hrest
  | error h => exact .error h

/-- Nothing is to be shown where no two streams correspond. -/
theorem of_false {x : Parser α} {y : Parser β} (h : ∀ s s', ¬ P s s') : InStep P x y Q R E :=
  fun s s' hs => absurd hs (h s s')

theorem weaken {x : Parser α} {y : Parser β} {Q₂ : α → β → Prop} (hx : InStep P' x y Q R' E)
    (hP : ∀ s s', P s s' → P' s s') (hR : ∀ s s', R' s s' → R s s')
    (hQ : ∀ a b, Q a b → Q₂ a b) : InStep P x y Q₂ R E := by
  intro s s' hs
  have hresults := hx s s' (hP s s' hs)
  generalize x.run s = r, y.run s' = r' at hresults ⊢
  cases hresults with
  | ok hvalue hrest => exact .ok (hQ _ _ hvalue) (hR _ _ hrest)
  | error h => exact .error h

end InStep

end InStep

end BinaryPoint
