import BinaryPoint.Expr
import Mathlib.Data.List.Basic
import Mathlib.Order.Basic

/-! # Places in expressions

A place in an expression is told by the way to it: which of the parts to go into, again and again.
The order of ways is that of dictionaries, so that a place comes before another one just if it is
to the left of it, or around it.

* `children`, `at?`: the immediate parts of an expression, and the part at a place;
* `NamesAt`, `FirstAt`: a name at a place, and the first name of a kind;
* `induction_children`: what passes from the immediate parts to the whole holds of all expressions;
* `mem_names_iff`, `exists_firstAt`: the names in an expression are those at any place, however
  deep, and they are listed in the order of their places.
-/

namespace BinaryPoint.Expr

variable {e : Expr} {es : List Expr} {test : String → Bool} {x : String × Option Location}

/-! ## Parts -/

/-- The expressions that an expression is made of, from left to right. -/
def children : Expr → List Expr
  | integer .. | real .. | name .. | foreign .. => []
  | binary _ left right _ => [left, right]
  | unary _ operand _ => [operand]
  | paren inner _ => [inner]
  | list elements _ => elements

/-- The part of an expression at the end of a way into it. -/
def at? : List ℕ → Expr → Option Expr
  | [], e => some e
  | i :: path, e => e.children[i]?.bind (at? path)

/-- There is a name at a place. -/
def NamesAt (e : Expr) (path : List ℕ) (n : String) (place : Option Location) : Prop :=
  e.at? path = some (.name n place)

/-- There is a name of a kind at a place, and none at the places before it. -/
def FirstAt (P : String → Prop) (e : Expr) (path : List ℕ) (n : String)
    (place : Option Location) : Prop :=
  e.NamesAt path n place ∧ P n ∧ ∀ path' < path, ∀ n' place', e.NamesAt path' n' place' → ¬ P n'

theorem sizeOf_lt_of_mem_children {c : Expr} (h : c ∈ e.children) : sizeOf c < sizeOf e := by
  cases e with
  | integer | real | name | foreign => cases h
  | binary op left right place =>
    -- either operand
    rcases List.mem_pair.mp h with rfl | rfl
    all_goals
      rw [binary.sizeOf_spec]
      omega
  | unary symbol operand place =>
    rw [List.mem_singleton.mp h, unary.sizeOf_spec]
    omega
  | paren inner place =>
    rw [List.mem_singleton.mp h, paren.sizeOf_spec]
    omega
  | list elements place =>
    have helement : sizeOf c < sizeOf elements := List.sizeOf_lt_of_mem h
    rw [list.sizeOf_spec]
    omega

/-- What holds of an expression as soon as it holds of its immediate parts holds of all. -/
theorem induction_children {P : Expr → Prop} (step : ∀ e, (∀ c ∈ e.children, P c) → P e)
    (e : Expr) : P e :=
  step e fun c hc =>
    have := sizeOf_lt_of_mem_children hc
    induction_children step c
termination_by sizeOf e

/-! ## Names -/

/-- The names in an expression that is no name itself are those in its parts. -/
theorem names_eq_namesOf_children (h : ∀ n place, e ≠ .name n place) :
    e.names = namesOf e.children := by
  cases e with
  | name n place => exact absurd rfl (h n place)
  | integer | real | foreign => simp [names, children, namesOf]
  | binary op left right place => simp [names, children, namesOf]
  | unary symbol operand place => simp [names, children, namesOf]
  | paren inner place => simp [names, children, namesOf]
  | list elements place => rw [names, children]

theorem mem_namesOf_iff : x ∈ namesOf es ↔ ∃ c ∈ es, x ∈ c.names := by
  induction es with
  | nil => simp [namesOf]
  | cons c es ih => simp [namesOf, ih]

/-- The way into a name ends there. -/
theorem namesAt_name {path : List ℕ} {n n' : String} {place place' : Option Location} :
    (name n place).NamesAt path n' place' ↔ path = [] ∧ n' = n ∧ place' = place := by
  cases path with
  | nil => simp [NamesAt, at?, eq_comm]
  | cons i path => simp [NamesAt, at?, children]

/-- The way to a name in an expression that is none itself goes through one of its parts. -/
theorem namesAt_iff (h : ∀ n place, e ≠ .name n place) {path : List ℕ} {n : String}
    {place : Option Location} :
    e.NamesAt path n place ↔
      ∃ i path' c, path = i :: path' ∧ e.children[i]? = some c ∧ c.NamesAt path' n place := by
  cases path with
  | nil => simp [NamesAt, at?, h]
  | cons i path =>
    rw [NamesAt, at?, Option.bind_eq_some_iff]
    constructor
    · rintro ⟨c, hc, hpath⟩
      exact ⟨i, path, c, rfl, hc, hpath⟩
    · rintro ⟨_, _, c, ⟨⟩, hc, hpath⟩
      exact ⟨c, hc, hpath⟩

/-- The names in an expression are those at its places. -/
theorem mem_names_iff {n : String} {place : Option Location} :
    (n, place) ∈ e.names ↔ ∃ path, e.NamesAt path n place := by
  induction e using induction_children with
  | step e ih =>
    by_cases hname : ∃ n place, e = .name n place
    · -- a name is at the empty path only
      obtain ⟨n', place', rfl⟩ := hname
      simp [names, namesAt_name]
    · -- any other expression has the names of its children, one step further down
      have hname : ∀ n place, e ≠ .name n place := fun n place h => hname ⟨n, place, h⟩
      simp only [names_eq_namesOf_children hname, mem_namesOf_iff, namesAt_iff hname]
      constructor
      · rintro ⟨c, hc, hmem⟩
        obtain ⟨i, hi⟩ := List.mem_iff_getElem?.mp hc
        obtain ⟨path, hpath⟩ := (ih c hc).mp hmem
        exact ⟨i :: path, i, path, c, rfl, hi, hpath⟩
      · rintro ⟨_, i, path, c, -, hi, hpath⟩
        have hc := List.mem_of_getElem? hi
        exact ⟨c, hc, (ih c hc).mpr ⟨path, hpath⟩⟩

/-- Among expressions side by side, the first name to pass a test is in one of them, and none of
those to its left has any. -/
theorem exists_child_of_find?_namesOf (h : (namesOf es).find? (test ·.1) = some x) :
    ∃ (i : ℕ) (c : Expr), es[i]? = some c ∧ c.names.find? (test ·.1) = some x ∧
      ∀ j < i, ∀ c' : Expr, es[j]? = some c' → ∀ y ∈ c'.names, ¬ test y.1 := by
  induction es with
  | nil => cases h
  | cons c es ih =>
    rw [namesOf, List.find?_append] at h
    cases hc : c.names.find? (test ·.1) with
    | some y =>
      -- the first expression has such a name, and nothing is to its left
      rw [hc, Option.some_or] at h
      exact ⟨0, c, rfl, hc.trans h, fun j hj => absurd hj (Nat.not_lt_zero j)⟩
    | none =>
      -- it has none, so those to the left of the one found are this one and the ones before
      rw [hc, Option.none_or] at h
      obtain ⟨i, c', hi, hfind, hbefore⟩ := ih h
      refine ⟨i + 1, c', hi, hfind, fun j hj c'' hc'' => ?_⟩
      cases j with
      | zero =>
        cases hc''
        exact List.find?_eq_none.mp hc
      | succ j => exact hbefore j (Nat.lt_of_succ_lt_succ hj) c'' hc''

/-- The first name of the list to pass a test is at the first place with such a name. -/
theorem exists_firstAt (h : e.names.find? (test ·.1) = some x) :
    ∃ path, e.FirstAt (test ·) path x.1 x.2 := by
  induction e using induction_children with
  | step e ih =>
    by_cases hname : ∃ n place, e = .name n place
    · obtain ⟨n, place, rfl⟩ := hname
      have htest := List.find?_some h
      obtain rfl : x = (n, place) := List.mem_singleton.mp (List.mem_of_find?_eq_some h)
      exact ⟨[], rfl, htest, fun path' hpath' => absurd hpath' (List.not_lt_nil path')⟩
    · have hname : ∀ n place, e ≠ .name n place := fun n place h => hname ⟨n, place, h⟩
      rw [names_eq_namesOf_children hname] at h
      obtain ⟨i, c, hi, hfind, hbefore⟩ := exists_child_of_find?_namesOf h
      obtain ⟨path, hpath, htest, hfirst⟩ := ih c (List.mem_of_getElem? hi) hfind
      refine ⟨i :: path, (namesAt_iff hname).mpr ⟨i, path, c, rfl, hi, hpath⟩, htest, ?_⟩
      -- a path that comes before leads into an earlier child, or to an earlier place in the same
      -- one
      intro way hlt n' place' hway
      obtain ⟨j, path', c', rfl, hj, hpath'⟩ := (namesAt_iff hname).mp hway
      rcases List.cons_lt_cons_iff.mp hlt with hless | ⟨rfl, hinner⟩
      · exact hbefore j hless c' hj _ (mem_names_iff.mpr ⟨path', hpath'⟩)
      · rw [hi] at hj
        cases hj
        exact hfirst path' hinner n' place' hpath'

end BinaryPoint.Expr
