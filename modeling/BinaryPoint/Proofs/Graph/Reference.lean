import BinaryPoint.Proofs.Graph.Accuracy
import BinaryPoint.Proofs.Graph.Places

/-! # References and expressions

A declaration that refers to a constant by its bare name takes over the values of the
constant. One that has the name in parentheses is an expression, evaluated in doubles.
For a scalar constant both come to the same (`reformat_agrees_with_bind`), since every
value in a graph is exactly a double: nothing is lost on the way through it.
-/

namespace BinaryPoint

open Binder (Reached)

/-! ## A scalar as a sample and as an expression -/

/-- A scalar constant has one value, and as an expression it stands for that value. -/
theorem Graph.Sound.scalar {g : Graph} (hg : g.Sound) {name : String} {c : Constant}
    (hfind : g.find? name = some c) (hscalar : c.scalar) :
    ∃ v, c.values = [v] ∧ c.reals = [v.toReal] ∧
      ∀ place place', g.evaluate (.paren (.name name place) place') = .ok v.toReal := by
  obtain ⟨v, hv⟩ := List.length_eq_one_iff.mp ((hg.find? hfind).length_of_scalar hscalar)
  refine ⟨v, hv, by rw [Constant.reals, hv]; rfl, fun place place' => ?_⟩
  have hvalue : c.value = .ok v := by rw [Constant.value, hscalar, hv]
  have henv : g.environment [(name, place)] = .ok [(name, v.toReal)] := by
    simp [environment, hfind, hscalar, hvalue]
  simp [evaluate, Expr.names, henv, Expr.eval]

namespace Decl

/-- The declaration with a name in parentheses for its value. -/
def enclosing (d : Decl) (name : String) (place place' : Option Location) : Decl :=
  { d with value := .paren (.name name place) place' }

/-- Putting the name of a scalar constant in parentheses changes nothing. -/
theorem build_enclosing {g : Graph} (hg : g.Sound) {d : Decl} {name : String}
    {place : Option Location} {c : Constant} (hvalue : d.value = .name name place)
    (hfind : g.find? name = some c) (hscalar : c.scalar) (config : Config) (b : Binder)
    (inner outer : Option Location) :
    (d.enclosing name inner outer).build config b g = d.build config b g := by
  obtain ⟨v, hv, hreals, hevaluate⟩ := hg.scalar hfind hscalar
  have hsource : d.source? g = some c := by rw [source?, hvalue]; exact hfind
  have hsamples : d.samples g = .ok ([v.toReal], true) := by
    rw [samples_of_source? hsource, hreals, hscalar]
  have hsamples' : (d.enclosing name inner outer).samples g = .ok ([v.toReal], true) := by
    simp [samples, source?, enclosing, hevaluate]
  have hbind (f : Format) : (d.enclosing name inner outer).bindSamples b g [v.toReal] f =
      d.bindSamples b g [v.toReal] f := by
    cases htolerance : d.tolerance with
    | some e =>
      rw [bindSamples_of_tolerance htolerance,
        bindSamples_of_tolerance (d := d.enclosing name inner outer) htolerance]
    | none =>
      -- one side rounds the double, the other reformats the value
      have hexact := (hg.find? hfind).representable v (by simp [hv])
      simp only [bindSamples, hsource, htolerance, hv, List.mapM_cons, List.mapM_nil,
        Binder.reformat_eq_bind hexact]
      rfl
  -- the samples are there, so that the position of the value is not asked for
  rw [build, build, hsamples, hsamples']
  simp only [Binder.Binding.of_ok_bind, List.isEmpty_cons, Bool.false_eq_true, if_false, hbind]
  rfl

end Decl

namespace Program

variable {config : Config} {b : Binder} {p : Program}

/-- Every value of a built graph is exactly a double, so that reformatting it is binding its
double, in any binder and to any format. And so a later declaration that refers to a scalar
constant by its name alone builds what it builds with the name in parentheses, or fails with
the same words. -/
theorem reformat_agrees_with_bind {cache : Cache ValueType} (hcache : Reached cache)
    {built : Built} (h : ((p.build config b).runOn cache).1 = .ok built) :
    (∀ c ∈ built.graph.constants, ∀ v ∈ c.values,
      v.toReal.isFinite ∧ v.toReal.toRat = v.toRat ∧
        ∀ (b' : Binder) (d : Descriptor), b'.reformat v d = b'.bind d (Binder.unbind v)) ∧
    ∀ (d : Decl) (name : String) (place inner outer : Option Location) (c : Constant)
      (tolerance : Option Expr), d.value = .name name place →
      built.graph.find? name = some c → c.scalar →
      Option.Rel Expr.SameText tolerance d.tolerance →
      Binder.Binding.RunAlike
        (({ d.enclosing name inner outer with tolerance } : Decl).build config b built.graph)
        (d.build config b built.graph) := by
  have hsound := sound_of_build hcache h
  constructor
  · intro c hc v hv
    have hexact := (hsound c hc).representable v hv
    obtain ⟨hfinite, hvalue⟩ := Fixed.toReal_exact hexact
    exact ⟨hfinite, hvalue, Binder.reformat_eq_bind hexact⟩
  · intro d name place inner outer c tolerance hvalue hfind hscalar hsame
    rw [← Decl.build_enclosing hsound hvalue hfind hscalar config b inner outer]
    exact Decl.runAlike_build (d.enclosing name inner outer) hsame

/-- A later constant takes over eighths within a tenth; the parentheses move the tolerance. -/
theorem reformat_agrees_with_bind_eighths :
    let tenth := Binary64.ofRatio false 1 10
    let eighths : Decl := ⟨"W", .real (.ofRatio false 9 8) none, none,
      some (.real (.ofRatio false 1 1000) none), none⟩
    let p : Program := ⟨none, [eighths], none⟩
    let bare : Decl := ⟨"Z", .name "W" (some ⟨"p", 2, 11⟩), none,
      some (.real tenth (some ⟨"p", 2, 20⟩)), none⟩
    let enclosed : Decl := ⟨"Z", .paren (.name "W" (some ⟨"p", 2, 12⟩)) (some ⟨"p", 2, 11⟩), none,
      some (.real tenth (some ⟨"p", 2, 22⟩)), none⟩
    let b : Binder := ⟨.int 1024, 0⟩
    let halves : Format := ⟨true, 2, 1⟩
    ∃ built W v, ((p.build .standard b).runOn {}).1 = .ok built ∧
      built.graph.find? "W" = some W ∧ W.values = [v] ∧ v.toReal.toRat = v.toRat ∧
      b.reformat v halves = b.bind halves (Binder.unbind v) ∧
      Binder.Binding.RunAlike (enclosed.build .standard b built.graph)
        (bare.build .standard b built.graph) := by
  intro tenth eighths p bare enclosed b halves
  have hraws : ((p.build .standard b).runOn {}).1.toOption.bind (fun built =>
      (built.graph.find? "W").map (fun W => (W.scalar, W.values.map (·.raw)))) =
        some (true, [9]) := by decide +kernel
  obtain ⟨built, hbuilt, hsome⟩ := Option.bind_eq_some_iff.mp hraws
  obtain ⟨W, hfind, hW⟩ := Option.map_eq_some_iff.mp hsome
  obtain ⟨v, hv⟩ := List.length_eq_one_iff.mp
    (by simpa using congrArg (List.length ∘ Prod.snd) hW : W.values.length = 1)
  have h := eq_ok_of_toOption hbuilt
  have hscalar : W.scalar = true := congrArg Prod.fst hW
  obtain ⟨hvalues, hreference⟩ := reformat_agrees_with_bind .empty h
  obtain ⟨-, hexact, hagree⟩ := hvalues W (List.mem_of_find?_eq_some hfind) v (by simp [hv])
  exact ⟨built, W, v, h, hfind, hv, hexact, hagree b halves,
    hreference bare "W" _ _ _ W enclosed.tolerance rfl hfind hscalar (.some rfl)⟩

end Program

end BinaryPoint
