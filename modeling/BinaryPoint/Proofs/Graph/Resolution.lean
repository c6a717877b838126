import BinaryPoint.Proofs.Expr.Paths
import BinaryPoint.Proofs.Graph.Accuracy
import BinaryPoint.Proofs.Graph.Isolation

/-! # Names in expressions

Before an expression is evaluated over a graph, the values of its names are collected. A list of
samples has none, and so the first name of such a list, from left to right, ends the evaluation,
however deep it is in the expression and even if another fault is to the left of it. All other
names in the expression are those of scalar constants, whose values were collected, or of no
constant at all.

* `Graph.IsList`: the names of lists of samples;
* `Graph.environment_eq_refuse`, `Graph.exists_environment`: how the collection ends;
* `Expr.atWorst_eval_unknown`: which names evaluation can find to be unknown;
* `Program.evaluate_resolves`: evaluation over a built graph.
-/

namespace BinaryPoint

open Binder (Reached)

/-! ## Unknown names -/

namespace Expr

variable {env : String → Option Binary64}

/-- A fault that finds a name unknown does so for a name in question that has no value. -/
def Unresolved (env : String → Option Binary64) (names : List (String × Option Location))
    (f : Fault) : Prop :=
  ∀ n place, f = .unknownScalar n place → env n = none ∧ (n, place) ∈ names

theorem Unresolved.mono {f : Fault} {names names' : List (String × Option Location)}
    (h : Unresolved env names f) (hsub : names ⊆ names') : Unresolved env names' f :=
  fun n place hf => ⟨(h n place hf).1, hsub (h n place hf).2⟩

theorem atWorst_finite_unresolved (x : Binary64) (place : Option Location)
    (names : List (String × Option Location)) :
    AtWorst (Unresolved env names) (finite x place) := by
  rw [finite]
  split
  · exact .ok x
  · exact .worded (by rintro _ _ ⟨⟩) rfl

/-- Operators have nothing to do with names. -/
theorem atWorst_apply_unresolved (op : Operator) (x y : Binary64) (place : Option Location)
    (names : List (String × Option Location)) :
    AtWorst (Unresolved env names) (apply op x y place) := by
  cases op with
  | plus => exact atWorst_finite_unresolved (x + y) place names
  | minus => exact atWorst_finite_unresolved (x - y) place names
  | times => exact atWorst_finite_unresolved (x * y) place names
  | divide =>
    rw [apply]
    split
    · exact .worded (by rintro _ _ ⟨⟩) rfl
    · exact atWorst_finite_unresolved (x / y) place names
  | unknown symbol => exact .worded (by rintro _ _ ⟨⟩) rfl

/-- A name that evaluation finds to be unknown is one of those in the expression, and has no
value. -/
theorem atWorst_eval_unknown (env : String → Option Binary64) :
    ∀ e : Expr, AtWorst (Unresolved env e.names) (e.eval env)
  | .integer n place => by
    rw [eval]
    split
    · exact .ok _
    · exact .worded (by rintro _ _ ⟨⟩) rfl
  | .real x place => .ok x
  | .name n place => by
    rw [eval]
    split
    · exact .ok _
    · next hnone =>
      refine .worded ?_ rfl
      rintro _ _ ⟨⟩
      exact ⟨hnone, by simp [names]⟩
  | .binary op left right place => by
    rw [eval, names]
    refine AtWorst.bind ((atWorst_eval_unknown env left).mono fun f hf => ?_) fun x _ => ?_
    · exact hf.mono (List.subset_append_left _ _)
    · refine AtWorst.bind ((atWorst_eval_unknown env right).mono fun f hf => ?_) fun y _ => ?_
      · exact hf.mono (List.subset_append_right _ _)
      · exact atWorst_apply_unresolved op x y place _
  | .unary symbol operand place => by
    rw [eval, names]
    refine AtWorst.bind (atWorst_eval_unknown env operand) fun x _ => ?_
    split
    · exact .ok (-x)
    · exact .worded (by rintro _ _ ⟨⟩) rfl
  | .paren inner place => by
    rw [eval, names]
    exact atWorst_eval_unknown env inner
  | .list elements place => .worded (by rintro _ _ ⟨⟩) rfl
  | .foreign kind place => .worded (by rintro _ _ ⟨⟩) rfl

end Expr

namespace Graph

variable {g : Graph} {name : String} {c : Constant}

/-! ## Constants by name -/

theorem find?_eq_some_iff_of_nodup (hg : g.names.Nodup) :
    g.find? name = some c ↔ c ∈ g.constants ∧ c.name = name := by
  constructor
  · intro h
    exact ⟨List.mem_of_find?_eq_some h, by simpa using List.find?_some h⟩
  · rintro ⟨hc, rfl⟩
    cases hfind : g.find? c.name with
    | none =>
      have hnone := List.find?_eq_none.mp hfind c hc
      simp at hnone
    | some c' =>
      -- two constants of one name are one
      have hname : c'.name = c.name := by simpa using List.find?_some hfind
      rw [List.inj_on_of_nodup_map hg (List.mem_of_find?_eq_some hfind) hc hname]

/-- The scalar constants have values in expressions, and no other name has. -/
theorem rounded?_eq_some_iff (hsound : g.Sound) (hg : g.names.Nodup) {x : Binary64} :
    g.rounded? name = some x ↔
      ∃ c ∈ g.constants, c.name = name ∧ c.scalar ∧ ∃ v, c.values = [v] ∧ v.toReal = x := by
  rw [rounded?, Option.bind_eq_some_iff]
  constructor
  · rintro ⟨c, hfind, hvalue⟩
    obtain ⟨hc, hname⟩ := (find?_eq_some_iff_of_nodup hg).mp hfind
    refine ⟨c, hc, hname, ?_⟩
    by_cases hscalar : c.scalar
    · obtain ⟨v, hv⟩ := List.length_eq_one_iff.mp ((hsound c hc).length_of_scalar hscalar)
      rw [Constant.value, hscalar, hv] at hvalue
      exact ⟨hscalar, v, hv, Option.some.inj hvalue⟩
    · -- a list of samples has no one value
      rw [Bool.not_eq_true] at hscalar
      simp [Constant.value, hscalar, refuse] at hvalue
  · rintro ⟨c, hc, hname, hscalar, v, hv, rfl⟩
    refine ⟨c, (find?_eq_some_iff_of_nodup hg).mpr ⟨hc, hname⟩, ?_⟩
    rw [Constant.value, hscalar, hv]

/-! ## The collection of values -/

/-- A name is that of a list of samples. -/
def IsList (g : Graph) (name : String) : Prop := ∃ c ∈ g.constants, c.name = name ∧ ¬ c.scalar

/-- Whether a list of samples is found under a name. -/
def lists (g : Graph) (name : String) : Bool := (g.find? name).any (!·.scalar)

theorem lists_iff (hg : g.names.Nodup) : g.lists name ↔ g.IsList name := by
  rw [lists, Option.any_eq_true]
  simp only [IsList, find?_eq_some_iff_of_nodup hg, Bool.not_eq_true', Bool.not_eq_true, and_assoc]

/-- A scalar that a sound graph has is collected, and so is the rest. -/
theorem environment_cons (hg : g.Sound) {x : String × Option Location} (h : ¬ g.lists x.1)
    (others : List (String × Option Location)) :
    ∃ values, g.environment (x :: others) =
      g.environment others >>= fun env => .ok (values ++ env) := by
  rw [environment]
  cases hfind : g.find? x.1 with
  | none =>
    refine ⟨[], ?_⟩
    dsimp only
    cases g.environment others <;> rfl
  | some c =>
    have hscalar : c.scalar = true := by simpa [lists, hfind] using h
    obtain ⟨v, hv⟩ := List.length_eq_one_iff.mp ((hg.find? hfind).length_of_scalar hscalar)
    have hvalue : c.value = .ok v := by rw [Constant.value, hscalar, hv]
    refine ⟨[(x.1, v.toReal)], ?_⟩
    simp only [hscalar, hvalue, Bool.not_true, Bool.false_eq_true, if_false, ok_bind]
    rfl

/-- The first name of a list ends the collection. -/
theorem environment_eq_refuse (hg : g.Sound) {names : List (String × Option Location)}
    {x : String × Option Location} (h : names.find? (g.lists ·.1) = some x) :
    g.environment names = refuse (.listInExpression x.1 x.2) := by
  induction names with
  | nil => cases h
  | cons first others ih =>
    by_cases hlist : g.lists first.1
    · -- the first of the names is that of a list
      rw [List.find?_cons, hlist] at h
      obtain rfl := Option.some.inj h
      rw [lists, Option.any_eq_true] at hlist
      obtain ⟨c, hfind, hscalar⟩ := hlist
      rw [environment, hfind]
      simp [hscalar]
    · -- it is not, and what is collected for it does not hide the refusal behind it
      obtain ⟨values, hcons⟩ := environment_cons hg hlist others
      rw [Bool.not_eq_true] at hlist
      rw [List.find?_cons, hlist] at h
      rw [hcons, ih h, refuse_bind]

/-- Without such a name there is an end to the collection. -/
theorem exists_environment (hg : g.Sound) {names : List (String × Option Location)}
    (h : ∀ x ∈ names, ¬ g.lists x.1) : ∃ env, g.environment names = .ok env := by
  induction names with
  | nil => exact ⟨[], rfl⟩
  | cons first others ih =>
    obtain ⟨hfirst, hothers⟩ := List.forall_mem_cons.mp h
    obtain ⟨env, henv⟩ := ih hothers
    obtain ⟨values, hcons⟩ := environment_cons hg hfirst others
    exact ⟨values ++ env, by rw [hcons, henv, ok_bind]⟩

/-! ## Evaluation -/

/-- The name of a list anywhere in an expression ends its evaluation, and the first one is
reported. -/
theorem evaluate_eq_refuse (hg : g.Sound) {e : Expr} {x : String × Option Location}
    (h : e.names.find? (g.lists ·.1) = some x) :
    g.evaluate e = refuse (.listInExpression x.1 x.2) := by
  rw [evaluate, environment_eq_refuse hg h, refuse_bind]

/-- An expression without such a name is evaluated over the values of all scalar constants. -/
theorem evaluate_eq_eval (hg : g.Sound) {e : Expr} (h : ∀ x ∈ e.names, ¬ g.lists x.1) :
    g.evaluate e = e.eval g.rounded? := by
  obtain ⟨env, henv⟩ := exists_environment hg h
  rw [evaluate, henv, ok_bind]
  apply Expr.eval_congr
  intro name hname
  rw [find?_environment henv, if_pos hname]

/-- A name that an evaluation finds to be unknown is in the expression, and no constant has it. -/
theorem not_mem_names_of_evaluate (hg : g.Sound) (hnodup : g.names.Nodup) {e : Expr}
    {place : Option Location} (h : g.evaluate e = refuse (.unknownScalar name place)) :
    name ∉ g.names ∧ (name, place) ∈ e.names := by
  rw [refuse_of_worded rfl] at h
  cases hfirst : e.names.find? (g.lists ·.1) with
  | some x =>
    rw [evaluate_eq_refuse hg hfirst, refuse_of_worded rfl] at h
    cases h
  | none =>
    have hnone := List.find?_eq_none.mp hfirst
    rw [evaluate_eq_eval hg hnone] at h
    obtain ⟨hvalue, hmem⟩ := Expr.atWorst_eval_unknown g.rounded? e _ h name place rfl
    refine ⟨fun hname => ?_, hmem⟩
    obtain ⟨c, hc, rfl⟩ := List.mem_map.mp hname
    -- no list has the name, and a scalar would have given it a value
    have hscalar : c.scalar := by
      by_contra hlist
      exact hnone _ hmem ((lists_iff hnodup).mpr ⟨c, hc, rfl, hlist⟩)
    obtain ⟨v, hv⟩ := List.length_eq_one_iff.mp ((hg c hc).length_of_scalar hscalar)
    have hsome := (rounded?_eq_some_iff hg hnodup).mpr ⟨c, hc, rfl, hscalar, v, hv, rfl⟩
    rw [hvalue] at hsome
    cases hsome

end Graph

/-! ## Built graphs -/

namespace Program

variable {config : Config} {b : Binder} {p : Program} {cache : Cache ValueType} {built : Built}

theorem nodup_of_build (h : ((p.build config b).runOn cache).1 = .ok built) :
    built.graph.names.Nodup := by
  obtain ⟨row, -, hfates, rfl⟩ := fates_of_run p.statements _ built cache .refl h
  exact hfates.nodup List.nodup_nil

/-- **Names in expressions are resolved.** In a built graph the names that have a value are those
of the scalar constants, and it is their one rounded value. An expression in which a list of
samples is named at any place is refused for that, at the first such place from the left. Any other
expression evaluates, to a value or a fault, as it does over the values of all scalar constants;
and what is reported as unknown is the name at one of its places that no constant has. -/
theorem evaluate_resolves (hcache : Reached cache)
    (h : ((p.build config b).runOn cache).1 = .ok built) (e : Expr) :
    let g := built.graph
    (∀ name x, g.rounded? name = some x ↔
      ∃ c ∈ g.constants, c.name = name ∧ c.scalar ∧ ∃ v, c.values = [v] ∧ v.toReal = x) ∧
    ((∃ path name place, e.NamesAt path name place ∧ g.IsList name) →
      ∃ path name place, e.FirstAt g.IsList path name place ∧
        g.evaluate e = refuse (.listInExpression name place)) ∧
    ((∀ path name place, e.NamesAt path name place → ¬ g.IsList name) →
      g.evaluate e = e.eval g.rounded?) ∧
    ∀ name place, g.evaluate e = refuse (.unknownScalar name place) →
      name ∉ g.names ∧ ∃ path, e.NamesAt path name place := by
  intro g
  have hsound : g.Sound := sound_of_build hcache h
  have hnodup : g.names.Nodup := nodup_of_build h
  -- what is found under a name and what is in the graph is the same, since no name is taken twice
  have hlists : (fun name => g.lists name = true) = g.IsList :=
    funext fun name => propext (Graph.lists_iff hnodup)
  refine ⟨fun name x => Graph.rounded?_eq_some_iff hsound hnodup, ?_, ?_, ?_⟩
  · -- some name is that of a list, so there is a first one, and it ends the collection
    rintro ⟨path, name, place, hpath, hlist⟩
    have hmem : (name, place) ∈ e.names := Expr.mem_names_iff.mpr ⟨path, hpath⟩
    cases hfirst : e.names.find? (g.lists ·.1) with
    | none =>
      exact absurd ((Graph.lists_iff hnodup).mpr hlist) (List.find?_eq_none.mp hfirst _ hmem)
    | some x =>
      obtain ⟨path, hpath⟩ := Expr.exists_firstAt hfirst
      exact ⟨path, x.1, x.2, hlists ▸ hpath, Graph.evaluate_eq_refuse hsound hfirst⟩
  · -- none is: every name has its value or none, as in the whole graph
    intro hnone
    apply Graph.evaluate_eq_eval hsound
    rintro ⟨name, place⟩ hmem hlist
    obtain ⟨path, hpath⟩ := Expr.mem_names_iff.mp hmem
    exact hnone path name place hpath ((Graph.lists_iff hnodup).mp hlist)
  · intro name place hunknown
    obtain ⟨hname, hmem⟩ := Graph.not_mem_names_of_evaluate hsound hnodup hunknown
    exact ⟨hname, Expr.mem_names_iff.mp hmem⟩

/-- The name of a list deep on the right is reported before the division by zero on the left of
it, where a name is unknown as well; without it, the unknown name is. -/
theorem evaluate_resolves_deep :
    let real (m : ℕ) : Expr := .real (.ofRatio false m 1) none
    let half : Option Expr := some (.real (.ofRatio false 1 2) none)
    let p : Program := ⟨none, [⟨"L", .list [real 1, real 2] none, none, half, none⟩,
      ⟨"W", real 3, none, half, none⟩], none⟩
    let place (column : ℕ) : Option Location := some ⟨"p", 3, column⟩
    let sum (right : Expr) : Expr :=
      .binary .plus (.binary .divide (.name "N" (place 1)) (real 0) none) right none
    let deep : Expr := sum (.unary "-" (.paren (.list [real 1, .name "L" (place 9)] none) none) none)
    let flat : Expr := sum (.name "W" (place 5))
    ∃ built, ((p.build .standard ⟨.int 1024, 0⟩).runOn {}).1 = .ok built ∧
      built.graph.evaluate deep = refuse (.listInExpression "L" (place 9)) ∧
      built.graph.evaluate flat = flat.eval built.graph.rounded? ∧
      built.graph.evaluate flat = refuse (.unknownScalar "N" (place 1)) ∧
      "N" ∉ built.graph.names := by
  intro real half p place sum deep flat
  have hscalars : ((p.build .standard ⟨.int 1024, 0⟩).runOn {}).1.toOption.map
      (fun built => built.graph.constants.map fun c => (c.name, c.scalar)) =
        some [("L", false), ("W", true)] := by decide +kernel
  obtain ⟨built, hbuilt, hconstants⟩ := Option.map_eq_some_iff.mp hscalars
  have h := eq_ok_of_toOption hbuilt
  have hconstant (name : String) (scalar : Bool) :
      (∃ c ∈ built.graph.constants, c.name = name ∧ c.scalar = scalar) ↔
        (name, scalar) ∈ [("L", false), ("W", true)] := by
    simp [← hconstants, List.mem_map]
  have hlist (name : String) : built.graph.IsList name ↔ name = "L" := by
    simpa [Graph.IsList] using hconstant name false
  refine ⟨built, h, ?_, ?_⟩
  · obtain ⟨-, hlists, -⟩ := evaluate_resolves .empty h deep
    obtain ⟨path, name, place', ⟨hnames, hname, -⟩, hevaluate⟩ :=
      hlists ⟨[1, 0, 0, 1], "L", place 9, rfl, (hlist "L").mpr rfl⟩
    obtain rfl := (hlist name).mp hname
    have hmem : ("L", place') ∈ [("N", place 1), ("L", place 9)] :=
      Expr.mem_names_iff.mpr ⟨path, hnames⟩
    -- there is one name of a list in it
    obtain rfl : place' = place 9 := by simpa using hmem
    exact hevaluate
  · obtain ⟨hvalues, -, heval, hunknown⟩ := evaluate_resolves .empty h flat
    have hflat : built.graph.evaluate flat = flat.eval built.graph.rounded? := by
      refine heval fun path name place' hnames hname => ?_
      obtain rfl := (hlist name).mp hname
      have hmem : ("L", place') ∈ [("N", place 1), ("W", place 5)] :=
        Expr.mem_names_iff.mpr ⟨path, hnames⟩
      simp at hmem
    have hnone : built.graph.rounded? "N" = none := by
      by_contra hsome
      obtain ⟨x, hx⟩ := Option.ne_none_iff_exists'.mp hsome
      obtain ⟨c, hc, hname, hscalar, -⟩ := (hvalues "N" x).mp hx
      simpa using (hconstant "N" true).mp ⟨c, hc, hname, hscalar⟩
    -- the operands are evaluated from the left, and the unknown name comes first
    have hrefused : built.graph.evaluate flat = refuse (.unknownScalar "N" (place 1)) := by
      simp [hflat, flat, sum, Expr.eval, hnone]
    exact ⟨hflat, hrefused, (hunknown "N" (place 1) hrefused).1⟩

end Program

end BinaryPoint
