import BinaryPoint.Graph.Build
import BinaryPoint.Proofs.Binder.Binding

/-! # Positions only show in reports

The parts of an expression know where they stand in the source text. That has no
influence on a value, nor on the wording of a fault: two expressions that differ in
positions only (`SameText`) have outcomes that are `Alike`.
-/

namespace BinaryPoint

variable {α β : Type}

/-! ## Outcomes -/

/-- The same result, or two faults with the same wording. -/
inductive Alike : Except Fault α → Except Fault α → Prop
  | ok (a : α) : Alike (.ok a) (.ok a)
  | error {f g : Fault} (h : f.message = g.message) : Alike (.error f) (.error g)

namespace Alike

protected theorem refl (x : Except Fault α) : Alike x x := by
  cases x with
  | ok a => exact .ok a
  | error f => exact .error rfl

protected theorem symm {x y : Except Fault α} (h : Alike x y) : Alike y x := by
  cases h with
  | ok a => exact .ok a
  | error h => exact .error h.symm

protected theorem trans {x y z : Except Fault α} (h : Alike x y) (h' : Alike y z) :
    Alike x z := by
  cases h with
  | ok a => exact h'
  | error h =>
    cases h' with
    | error h' => exact .error (h.trans h')

/-- Faults that are worded alike stay so when they are raised. -/
protected theorem refuse {f g : Fault} (h : f.message? = g.message?) :
    Alike (refuse f : Except Fault α) (refuse g) := by
  apply Alike.error
  rw [Fault.settled, Fault.settled, h]
  split
  · rw [Fault.message, Fault.message, h]
  · rfl

protected theorem bind {x y : Except Fault α} {f g : α → Except Fault β} (hx : Alike x y)
    (hf : ∀ a, Alike (f a) (g a)) : Alike (x >>= f) (y >>= g) := by
  cases hx with
  | ok a => exact hf a
  | error h => exact .error h

end Alike

/-! ## Expressions -/

namespace Expr

mutual
/-- An expression without the positions of its parts. -/
def unplaced : Expr → Expr
  | integer n _ => integer n none
  | real x _ => real x none
  | name n _ => name n none
  | binary op left right _ => binary op (unplaced left) (unplaced right) none
  | unary symbol operand _ => unary symbol (unplaced operand) none
  | paren inner _ => paren (unplaced inner) none
  | list elements _ => list (unplacedAll elements) none
  | foreign kind _ => foreign kind none

/-- A row of expressions without the positions of their parts. -/
def unplacedAll : List Expr → List Expr
  | [] => []
  | e :: es => unplaced e :: unplacedAll es
end

/-- Two expressions that differ in the positions of their parts at most. -/
def SameText (e e' : Expr) : Prop := e.unplaced = e'.unplaced

mutual
/-- The names are the same, in the same order. -/
theorem names_unplaced : ∀ e : Expr, e.unplaced.names = e.names.map fun n => (n.1, none)
  | integer .. | real .. | name .. | foreign .. => by simp [unplaced, names]
  | binary _ left right _ => by
    rw [unplaced, names, names, List.map_append, names_unplaced left, names_unplaced right]
  | unary _ operand _ => by rw [unplaced, names, names, names_unplaced operand]
  | paren inner _ => by rw [unplaced, names, names, names_unplaced inner]
  | list elements _ => by rw [unplaced, names, names, namesOf_unplacedAll elements]

theorem namesOf_unplacedAll :
    ∀ es : List Expr, namesOf (unplacedAll es) = (namesOf es).map fun n => (n.1, none)
  | [] => rfl
  | e :: es => by
    rw [unplacedAll, namesOf, namesOf, List.map_append, names_unplaced e, namesOf_unplacedAll es]
end

theorem alike_finite (x : Binary64) (place place' : Option Location) :
    Alike (finite x place) (finite x place') := by
  rw [finite, finite]
  split
  · exact .refl _
  · exact .refuse rfl

theorem alike_apply (op : Operator) (x y : Binary64) (place place' : Option Location) :
    Alike (apply op x y place) (apply op x y place') := by
  cases op with
  | plus => exact alike_finite ..
  | minus => exact alike_finite ..
  | times => exact alike_finite ..
  | divide =>
    rw [apply, apply]
    split
    · exact .refuse rfl
    · exact alike_finite ..
  | unknown symbol => exact .refuse rfl

/-- Evaluation without positions has the same value, or fails with the same words. -/
theorem alike_eval_unplaced (env : String → Option Binary64) :
    ∀ e : Expr, Alike (e.unplaced.eval env) (e.eval env)
  | integer n place => by
    simp only [unplaced, eval]
    split
    · exact .refl _
    · exact .refuse rfl
  | real .. => .refl _
  | name n place => by
    simp only [unplaced, eval]
    split
    · exact .refl _
    · exact .refuse rfl
  | binary op left right place => by
    rw [unplaced, eval, eval]
    apply Alike.bind (alike_eval_unplaced env left)
    intro x
    apply Alike.bind (alike_eval_unplaced env right)
    intro y
    exact alike_apply ..
  | unary symbol operand place => by
    rw [unplaced, eval, eval]
    apply Alike.bind (alike_eval_unplaced env operand)
    intro x
    split
    · exact .refl _
    · exact .refuse rfl
  | paren inner place => by
    rw [unplaced, eval, eval]
    exact alike_eval_unplaced env inner
  | list .. => .refuse rfl
  | foreign .. => .refuse rfl

end Expr

/-! ## Evaluation over a graph -/

namespace Graph

theorem alike_environment (g : Graph) (names : List (String × Option Location)) :
    Alike (g.environment (names.map fun n => (n.1, none))) (g.environment names) := by
  induction names with
  | nil => exact .refl _
  | cons head others ih =>
    obtain ⟨name, place⟩ := head
    rw [List.map_cons, environment, environment]
    -- a name that is not found adds nothing, one that is found adds its value wherever it stands
    cases hfind : g.find? name with
    | none => exact ih
    | some c =>
      dsimp only
      split
      · exact .refuse rfl
      · apply Alike.bind (.refl _)
        intro v
        exact Alike.bind ih fun env => .refl _

theorem alike_evaluate_unplaced (g : Graph) (e : Expr) :
    Alike (g.evaluate e.unplaced) (g.evaluate e) := by
  rw [evaluate, evaluate, Expr.names_unplaced]
  apply Alike.bind (g.alike_environment e.names)
  intro env
  exact Expr.alike_eval_unplaced _ e

/-- Expressions that differ in positions only are evaluated alike. -/
theorem alike_evaluate {g : Graph} {e e' : Expr} (h : e.SameText e') :
    Alike (g.evaluate e) (g.evaluate e') := by
  have he := g.alike_evaluate_unplaced e
  rw [h] at he
  exact he.symm.trans (g.alike_evaluate_unplaced e')

end Graph

/-! ## Runs on a cache -/

/-- From every cache two computations have outcomes that are alike, and leave the same cache. -/
def Binder.Binding.RunAlike (x y : Binder.Binding α) : Prop :=
  ∀ cache, Alike (x.runOn cache).1 (y.runOn cache).1 ∧ (x.runOn cache).2 = (y.runOn cache).2

namespace Binder.Binding.RunAlike

protected theorem refl (x : Binding α) : RunAlike x x := fun _ => ⟨.refl _, rfl⟩

protected theorem of {x y : Except Fault α} (h : Alike x y) : RunAlike (of x) (of y) :=
  fun _ => ⟨h, rfl⟩

protected theorem bind {x y : Binding α} {f g : α → Binding β} (hx : RunAlike x y)
    (hf : ∀ a, RunAlike (f a) (g a)) : RunAlike (x >>= f) (y >>= g) := by
  intro cache
  obtain ⟨houtcome, hcache⟩ := hx cache
  rw [runOn_bind, runOn_bind]
  rcases hrun : x.runOn cache with ⟨r, between⟩
  rcases hrun' : y.runOn cache with ⟨r', between'⟩
  rw [hrun, hrun'] at houtcome hcache
  obtain rfl : between = between' := hcache
  cases houtcome with
  | ok a => exact hf a between
  | error h => exact ⟨.error h, rfl⟩

end Binder.Binding.RunAlike

/-! ## Declarations -/

/-- With a tolerance the samples are rounded, wherever they come from. -/
theorem Decl.bindSamples_of_tolerance {d : Decl} {e : Expr} (h : d.tolerance = some e)
    (b : Binder) (g : Graph) (samples : List Binary64) (f : Format) :
    d.bindSamples b g samples f = b.bindAll f samples := by
  rw [bindSamples, h]
  cases d.source? g <;> rfl

/-- Moving the parts of a tolerance does not change what is built, nor the wording of what is
refused. -/
theorem Decl.runAlike_build {config : Config} {b : Binder} {g : Graph} (d : Decl)
    {tolerance : Option Expr} (h : Option.Rel Expr.SameText tolerance d.tolerance) :
    Binder.Binding.RunAlike (({ d with tolerance } : Decl).build config b g)
      (d.build config b g) := by
  obtain ⟨name, value, format, tolerance', place⟩ := d
  cases h with
  | none => exact .refl _
  | @some e e' h =>
    rw [build, build]
    apply Binder.Binding.RunAlike.bind
    · cases format <;> exact .refl _
    · intro _
      apply Binder.Binding.RunAlike.bind (.refl _)
      rintro ⟨samples, scalar⟩
      dsimp only
      split
      · exact .refl _
      · apply Binder.Binding.RunAlike.bind
        · apply Binder.Binding.RunAlike.of
          exact Alike.bind (Graph.alike_evaluate h) fun t => .refl _
        · rintro ⟨f, t⟩
          rw [bindSamples_of_tolerance rfl, bindSamples_of_tolerance rfl]
          exact .bind (.refl _) fun values => .refl _

end BinaryPoint
