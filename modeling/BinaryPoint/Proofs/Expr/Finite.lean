import BinaryPoint.Expr.Parser
import BinaryPoint.Proofs.Binary64.Value
import BinaryPoint.Proofs.Faults
import Mathlib

/-! # Finite values of expressions

Evaluation fails with faults of its own class only (`atWorst_eval`). Where it returns, every
operator has been checked for a finite result, and so has every integer; a real literal has not.
So infinite values come from literals beyond the range of doubles and from nowhere else, and what
becomes of one is told by where it stands: a sign or parentheses hand it on, and a division by it
makes it disappear.

* `IsPart`: the subexpressions of an expression, itself among them;
* `eval_finite_iff`: the value of every part is finite just if every real literal is, and the
  value of the whole is unless it is such a literal, under signs and in parentheses.
-/

namespace BinaryPoint.Expr

variable {e e' e'' : Expr} {env : String → Option Binary64} {x y : Binary64}

/-! ## How evaluation fails -/

theorem atWorst_finite (x : Binary64) (place : Option Location) :
    AtWorst (·.kind = .evaluation) (finite x place) := by
  rw [finite]
  split
  · exact .ok x
  · exact .worded rfl rfl

theorem atWorst_apply (op : Operator) (x y : Binary64) (place : Option Location) :
    AtWorst (·.kind = .evaluation) (apply op x y place) := by
  cases op with
  | plus => exact atWorst_finite (x + y) place
  | minus => exact atWorst_finite (x - y) place
  | times => exact atWorst_finite (x * y) place
  | divide =>
    rw [apply]
    split
    · exact .worded rfl rfl
    · exact atWorst_finite (x / y) place
  | unknown symbol => exact .worded rfl rfl

theorem atWorst_eval (env : String → Option Binary64) :
    ∀ e : Expr, AtWorst (·.kind = .evaluation) (e.eval env)
  | .integer n place => by
    rw [eval]
    split
    · exact .ok _
    · exact .worded rfl rfl
  | .real x place => .ok x
  | .name n place => by
    rw [eval]
    split
    · exact .ok _
    · exact .worded rfl rfl
  | .binary op left right place => by
    rw [eval]
    apply AtWorst.bind (atWorst_eval env left)
    intro x _
    apply AtWorst.bind (atWorst_eval env right)
    intro y _
    exact atWorst_apply op x y place
  | .unary symbol operand place => by
    rw [eval]
    apply AtWorst.bind (atWorst_eval env operand)
    intro x _
    split
    · exact .ok (-x)
    · exact .worded rfl rfl
  | .paren inner place => by
    rw [eval]
    exact atWorst_eval env inner
  | .list elements place => .worded rfl rfl
  | .foreign kind place => .worded rfl rfl

/-! ## Subexpressions -/

/-- The first expression is the second one, or stands somewhere in it. -/
inductive IsPart (e : Expr) : Expr → Prop
  | self : IsPart e e
  | left {op left right place} : IsPart e left → IsPart e (.binary op left right place)
  | right {op left right place} : IsPart e right → IsPart e (.binary op left right place)
  | operand {symbol operand place} : IsPart e operand → IsPart e (.unary symbol operand place)
  | inner {inner place} : IsPart e inner → IsPart e (.paren inner place)
  | element {element elements place} : element ∈ elements → IsPart e element →
      IsPart e (.list elements place)

theorem IsPart.trans (h : e.IsPart e') (h' : e'.IsPart e'') : e.IsPart e'' := by
  induction h' with
  | self => exact h
  | left _ ih => exact .left ih
  | right _ ih => exact .right ih
  | operand _ ih => exact .operand ih
  | inner _ ih => exact .inner ih
  | element hmem _ ih => exact .element hmem ih

/-- An expression that has a value got it from the values of all its parts. -/
theorem IsPart.exists_eval (h : e.IsPart e') (he' : ∃ x, e'.eval env = .ok x) :
    ∃ y, e.eval env = .ok y := by
  induction h with
  | self => exact he'
  -- a binary operator evaluates its left operand first, then the right one
  | left _ ih =>
    obtain ⟨z, hz⟩ := he'
    rw [eval, bind_eq_ok] at hz
    obtain ⟨x, hx, -⟩ := hz
    exact ih ⟨x, hx⟩
  | right _ ih =>
    obtain ⟨z, hz⟩ := he'
    rw [eval, bind_eq_ok] at hz
    obtain ⟨_, -, hz⟩ := hz
    obtain ⟨y, hy, -⟩ := bind_eq_ok.mp hz
    exact ih ⟨y, hy⟩
  | operand _ ih =>
    obtain ⟨z, hz⟩ := he'
    rw [eval, bind_eq_ok] at hz
    obtain ⟨x, hx, -⟩ := hz
    exact ih ⟨x, hx⟩
  | inner _ ih =>
    rw [eval] at he'
    exact ih he'
  -- a list inside an expression has no value at all
  | element _ _ _ =>
    obtain ⟨z, hz⟩ := he'
    rw [eval] at hz
    exact absurd hz (refuse_ne_ok _ _)

/-- An expression without the signs and parentheses around it. -/
def bare : Expr → Expr
  | unary _ operand _ => bare operand
  | paren inner _ => bare inner
  | e => e

theorem isPart_bare : ∀ e : Expr, e.bare.IsPart e
  | .unary _ operand _ => .operand (isPart_bare operand)
  | .paren inner _ => .inner (isPart_bare inner)
  | .integer .. | .real .. | .name .. | .binary .. | .list .. | .foreign .. => .self

/-! ## Finite values -/

theorem isFinite_of_finite {place : Option Location} (h : finite x place = .ok y) :
    y.isFinite := by
  rw [finite] at h
  split at h
  · next hx =>
    cases h
    exact hx
  · exact absurd h (refuse_ne_ok _ _)

/-- An operator returns finite values only, whatever its operands. -/
theorem isFinite_of_apply {op : Operator} {place : Option Location} {z : Binary64}
    (h : apply op x y place = .ok z) : z.isFinite := by
  cases op with
  | plus | minus | times => exact isFinite_of_finite h
  | divide =>
    rw [apply] at h
    split at h
    · exact absurd h (refuse_ne_ok _ _)
    · exact isFinite_of_finite h
  | unknown symbol => exact absurd h (refuse_ne_ok _ _)

/-- A value is finite, unless the expression is in essence a literal that is not. -/
theorem isFinite_iff_of_eval (henv : ∀ n x, env n = some x → x.isFinite) :
    ∀ (e : Expr) (x : Binary64), e.eval env = .ok x →
      (x.isFinite ↔ ∀ y place, e.bare = .real y place → y.isFinite)
  | .integer n place, x, h => by
    rw [eval] at h
    split at h
    · next hfinite =>
      cases h
      exact iff_of_true hfinite (by rintro _ _ ⟨⟩)
    · exact absurd h (refuse_ne_ok _ _)
  | .real y place, x, h => by
    cases h
    refine ⟨fun hy => ?_, fun hall => hall y place rfl⟩
    rintro _ _ ⟨⟩
    exact hy
  | .name n place, x, h => by
    rw [eval] at h
    split at h
    · next y hy =>
      cases h
      exact iff_of_true (henv n _ hy) (by rintro _ _ ⟨⟩)
    · exact absurd h (refuse_ne_ok _ _)
  | .binary op left right place, x, h => by
    rw [eval, bind_eq_ok] at h
    obtain ⟨_, -, h⟩ := h
    obtain ⟨_, -, h⟩ := bind_eq_ok.mp h
    exact iff_of_true (isFinite_of_apply h) (by rintro _ _ ⟨⟩)
  | .unary symbol operand place, x, h => by
    rw [eval, bind_eq_ok] at h
    obtain ⟨y, hy, h⟩ := h
    split at h
    · cases h
      rw [Binary64.isFinite_neg]
      exact isFinite_iff_of_eval henv operand y hy
    · exact absurd h (refuse_ne_ok _ _)
  | .paren inner place, x, h => by
    rw [eval] at h
    exact isFinite_iff_of_eval henv inner x h
  | .list elements place, x, h => absurd h (refuse_ne_ok _ _)
  | .foreign kind place, x, h => absurd h (refuse_ne_ok _ _)

/-- **Infinite values come from literals.** Over finite values of the names, evaluation ends in a
fault of its own class or returns. If it returns then every part of the expression has a finite
value just if all real literals in it are finite; the value of the whole is finite unless the
expression is a literal that is not, under signs and in parentheses. -/
theorem eval_finite_iff (henv : ∀ n x, env n = some x → x.isFinite) (e : Expr) :
    (∀ f, e.eval env = .error f → f.kind = .evaluation) ∧
    ∀ x, e.eval env = .ok x →
      ((∀ e' : Expr, e'.IsPart e → ∃ y, e'.eval env = .ok y ∧ y.isFinite) ↔
        ∀ y place, (Expr.real y place).IsPart e → y.isFinite) ∧
      (x.isFinite ↔ ∀ y place, e.bare = .real y place → y.isFinite) := by
  refine ⟨atWorst_eval env e, fun x hx => ⟨⟨?_, ?_⟩, isFinite_iff_of_eval henv e x hx⟩⟩
  · intro hall y place hpart
    obtain ⟨z, hz, hfinite⟩ := hall _ hpart
    cases hz
    exact hfinite
  · intro hliterals e' hpart
    obtain ⟨y, hy⟩ := hpart.exists_eval ⟨x, hx⟩
    refine ⟨y, hy, (isFinite_iff_of_eval henv e' y hy).mpr fun z place hbare => ?_⟩
    -- the literal that a part is in essence stands in the whole expression
    exact hliterals z place ((hbare ▸ isPart_bare e').trans hpart)

/-- Divided by a literal beyond the range of doubles a name comes to zero, which does not show that
a part was infinite; divided by a half it is finite throughout. -/
theorem eval_finite_iff_absorbed :
    let env (n : String) := if n = "W" then some Binary64.one else none
    let quotient (y : Binary64) : Expr := .binary .divide (.name "W" none) (.real y none) none
    (∀ n x, env n = some x → x.isFinite) ∧
      (quotient (.inf false)).eval env = .ok (.zero false) ∧
      (¬ ∀ e' : Expr, e'.IsPart (quotient (.inf false)) → ∃ y, e'.eval env = .ok y ∧ y.isFinite) ∧
      ∀ e' : Expr, e'.IsPart (quotient (.ofRatio false 1 2)) →
        ∃ y, e'.eval env = .ok y ∧ y.isFinite := by
  intro env quotient
  have henv : ∀ n x, env n = some x → x.isFinite := by
    intro n x hx
    obtain ⟨-, hx⟩ := Option.ite_none_right_eq_some.mp hx
    cases hx
    rfl
  have hzero : (quotient (.inf false)).eval env = .ok (.zero false) :=
    eq_ok_of_toOption (by decide +kernel)
  have htwo : (quotient (.ofRatio false 1 2)).eval env = .ok (.ofRatio false 2 1) :=
    eq_ok_of_toOption (by decide +kernel)
  refine ⟨henv, hzero, fun hall => ?_, ?_⟩
  · -- the infinite divisor is a part
    have hliterals := ((eval_finite_iff henv _).2 _ hzero).1.mp hall
    cases hliterals _ none (.right .self)
  · -- the only literal is the half, which is finite
    refine ((eval_finite_iff henv _).2 _ htwo).1.mpr fun y place hpart => ?_
    cases hpart with
    | left h => cases h
    | right h =>
      cases h
      decide +kernel

/-- A literal beyond the range of doubles is read and evaluated, and has an infinite value. -/
theorem not_forall_eval_finite :
    ¬ ∀ (source file : String) (e : Expr) (env : String → Option Binary64) (x : Binary64),
      ofText source file = .ok e → (∀ n y, env n = some y → y.isFinite) →
      e.eval env = .ok x →
        x.isFinite ∧ ∀ e' : Expr, e'.IsPart e → ∃ y, e'.eval env = .ok y ∧ y.isFinite := by
  intro hall
  have hparse : ofText "1e999" "<string>" =
      .ok (.real (.inf false) (some ⟨"<string>", 1, 1⟩)) := by cbv
  obtain ⟨hfinite, -⟩ := hall _ _ _ (fun _ => none) _ hparse (by rintro _ _ ⟨⟩) rfl
  cases hfinite

end BinaryPoint.Expr
