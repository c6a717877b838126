import BinaryPoint.Graph.Build
import BinaryPoint.Proofs.Outcome

/-! # Expressions over the constants of a graph

Evaluation collects the values of the names in an expression first and only then
evaluates it. If that returns, then the value is the one that the expression has
where each scalar constant stands for its rounded value (`evaluate_eq_ok`).
-/

namespace BinaryPoint

/-! ## Evaluation depends on the names in an expression -/

theorem Expr.eval_congr {env env' : String → Option Binary64} :
    ∀ e : Expr, (∀ name ∈ e.names.map (·.1), env name = env' name) → e.eval env = e.eval env'
  | .integer .., _ => rfl
  | .real .., _ => rfl
  | .list .., _ => rfl
  | .foreign .., _ => rfl
  | .name n place, h => by
    have hname : env n = env' n := h n (by simp [names])
    rw [eval, eval, hname]
  | .binary op left right place, h => by
    have hleft := eval_congr left fun name hname => h name (by
      rw [names, List.map_append]
      exact List.mem_append_left _ hname)
    have hright := eval_congr right fun name hname => h name (by
      rw [names, List.map_append]
      exact List.mem_append_right _ hname)
    rw [eval, eval, hleft, hright]
  | .unary symbol operand place, h => by
    have hoperand := eval_congr operand fun name hname => h name (by rwa [names])
    rw [eval, eval, hoperand]
  | .paren inner place, h => by
    have hinner := eval_congr inner fun name hname => h name (by rwa [names])
    rw [eval, eval, hinner]

namespace Graph

/-! ## The values of names -/

/-- The rounded value of a name, if it is a scalar constant. -/
def rounded? (g : Graph) (name : String) : Option Binary64 :=
  (g.find? name).bind fun c =>
    match c.value with
    | .ok v => some v.toReal
    | .error _ => none

/-- The collected values are the rounded values of the names in question. -/
theorem find?_environment {g : Graph} {names : List (String × Option Location)}
    {env : List (String × Binary64)} (h : g.environment names = .ok env) (name : String) :
    (env.find? (·.1 = name)).map (·.2) =
      if name ∈ names.map (·.1) then g.rounded? name else none := by
  induction names generalizing env with
  | nil =>
    cases h
    simp
  | cons head others ih =>
    obtain ⟨first, place⟩ := head
    rw [environment] at h
    cases hfind : g.find? first with
    | none =>
      -- a name that is no constant has no value, whether it is counted among the names or not
      rw [hfind] at h
      rw [ih h]
      by_cases hname : name = first
      · subst hname
        simp [rounded?, hfind]
      · simp only [List.map_cons, List.mem_cons, hname, false_or]
    | some c =>
      rw [hfind] at h
      by_cases hscalar : c.scalar
      · simp only [hscalar, Bool.not_true, Bool.false_eq_true, if_false, bind_eq_ok] at h
        obtain ⟨v, hv, rest, hrest, henv⟩ := h
        cases henv
        by_cases hname : name = first
        · subst hname
          simp [rounded?, hfind, hv]
        · have hne : first ≠ name := fun heq => hname heq.symm
          simp only [List.map_cons, List.mem_cons, hname, false_or]
          rw [List.find?_cons_of_neg (by simpa using hne), ih hrest]
      · simp [hscalar] at h

/-- An expression that was evaluated has the value that it has over the rounded values. -/
theorem eval_of_evaluate {g : Graph} {e : Expr} {x : Binary64} (h : g.evaluate e = .ok x) :
    e.eval g.rounded? = .ok x := by
  rw [evaluate, bind_eq_ok] at h
  obtain ⟨env, henv, heval⟩ := h
  rw [← heval]
  apply Expr.eval_congr
  intro name hname
  rw [find?_environment henv, if_pos hname]

end Graph

end BinaryPoint
