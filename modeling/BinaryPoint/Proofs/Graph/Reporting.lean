import BinaryPoint.Proofs.Graph.Accuracy
import BinaryPoint.Proofs.Graph.Faults
import BinaryPoint.Proofs.Registry.Presets

/-! # What a build reports

A build takes the declarations of a program one after the other, and each of them either adds
its constant or is reported (`Program.Step`). The build of a program that was parsed goes
through in this way to its last declaration, unless one of them has a fault that is not
reported.

* `Program.addDecl_cases`: one declaration, by what its build comes to;
* `Program.steps_or_escapes`: all declarations, by induction along the program;
* `Program.build_reports`: the builds of parsed programs under loaded configurations;
* `Program.not_forall_build_returns`: a bound without a fraction, but given as a double, ends
  such a build.

How deep calls may be nested is a limit of the machine and is left out of account here: an
expression is evaluated however deep it is. A flat sum is a deep tree too, one level for each of
its terms, so a machine with such a limit may stop at a sum of about a thousand terms, which is no
fault that a build could report.
-/

namespace BinaryPoint.Program

open Binder (Reached)

/-! ## Steps -/

/-- What has been built and reported so far, and what the cache has learnt. -/
abbrev Progress := Built × Cache ValueType

/-- One declaration in a build that goes on: it adds its constant, or is reported because its
name is taken or because its build fails. -/
inductive Step (config : Config) (b : Binder) (d : Decl) : Progress → Progress → Prop
  | taken {built : Built} {cache : Cache ValueType} (h : built.graph.contains d.name) :
      Step config b d (built, cache)
        ({ built with diagnostics := built.diagnostics ++ [duplicate d] }, cache)
  | added {built : Built} {cache cache' : Cache ValueType} {c : Constant}
      (hnew : ¬ built.graph.contains d.name)
      (h : (d.build config b built.graph).runOn cache = (.ok c, cache')) :
      Step config b d (built, cache) ({ built with graph := built.graph.push c }, cache')
  | failed {built : Built} {cache cache' : Cache ValueType} {f : Fault}
      (hnew : ¬ built.graph.contains d.name) (hreported : f.reported)
      (h : (d.build config b built.graph).runOn cache = (.error f, cache')) :
      Step config b d (built, cache)
        ({ built with diagnostics := built.diagnostics ++ [.ofFault f d.place] }, cache')

/-- All of some declarations, in their order. -/
inductive Steps (config : Config) (b : Binder) : List Decl → Progress → Progress → Prop
  | nil {s : Progress} : Steps config b [] s s
  | cons {d : Decl} {ds : List Decl} {s between s' : Progress} (h : Step config b d s between)
      (hs : Steps config b ds between s') : Steps config b (d :: ds) s s'

variable {config : Config} {b : Binder}

/-- A step makes one constant or one report. -/
theorem Step.count {d : Decl} {s s' : Progress} (h : Step config b d s s') :
    s'.1.graph.constants.length + s'.1.diagnostics.length =
      s.1.graph.constants.length + s.1.diagnostics.length + 1 := by
  cases h with
  | taken =>
    simp only [List.length_append, List.length_singleton]
    omega
  | added =>
    simp only [Graph.push, List.length_append, List.length_singleton]
    omega
  | failed =>
    simp only [List.length_append, List.length_singleton]
    omega

/-- What a step reports is an error. -/
theorem Step.errors {d : Decl} {s s' : Progress} (h : Step config b d s s')
    (herrors : ∀ r ∈ s.1.diagnostics, r.severity = .error) :
    ∀ r ∈ s'.1.diagnostics, r.severity = .error := by
  cases h with
  | taken =>
    exact List.forall_mem_append.mpr ⟨herrors, List.forall_mem_singleton.mpr rfl⟩
  | added => exact herrors
  | failed =>
    exact List.forall_mem_append.mpr ⟨herrors, List.forall_mem_singleton.mpr rfl⟩

theorem Steps.count {ds : List Decl} {s s' : Progress} (h : Steps config b ds s s') :
    s'.1.graph.constants.length + s'.1.diagnostics.length =
      s.1.graph.constants.length + s.1.diagnostics.length + ds.length := by
  induction h with
  | nil => rfl
  | cons h _ ih =>
    rw [ih, h.count, List.length_cons]
    omega

theorem Steps.errors {ds : List Decl} {s s' : Progress} (h : Steps config b ds s s')
    (herrors : ∀ r ∈ s.1.diagnostics, r.severity = .error) :
    ∀ r ∈ s'.1.diagnostics, r.severity = .error := by
  induction h with
  | nil => exact herrors
  | cons h _ ih => exact ih (h.errors herrors)

/-! ## Runs -/

/-- A declaration makes a step, or its build has a fault that is not reported and ends the
build of the program. -/
theorem addDecl_cases (config : Config) (b : Binder) (built : Built) (d : Decl)
    (cache : Cache ValueType) :
    (∃ s, Step config b d (built, cache) s ∧
      (addDecl config b built d).runOn cache = (.ok s.1, s.2)) ∨
    ∃ f, ((d.build config b built.graph).runOn cache).1 = .error f ∧ ¬ f.reported ∧
      ((addDecl config b built d).runOn cache).1 = .error f := by
  rw [addDecl]
  by_cases htaken : built.graph.contains d.name
  · rw [if_pos htaken]
    exact .inl ⟨_, .taken htaken, rfl⟩
  · rw [if_neg htaken, Binder.Binding.runOn_bind, Binder.Binding.runOn_outcome]
    dsimp only
    rcases hrun : (d.build config b built.graph).runOn cache with ⟨f | c, cache'⟩
    · -- the build fails: it is the class of the fault that decides
      by_cases hreported : f.reported
      · refine .inl ⟨_, .failed htaken hreported hrun, ?_⟩
        simp only [hreported, if_true]
        rfl
      · refine .inr ⟨f, rfl, hreported, ?_⟩
        simp only [hreported]
        rfl
    · exact .inl ⟨_, .added htaken hrun, rfl⟩

/-- The declarations of a text make all their steps, or one of them escapes. -/
theorem steps_or_escapes (hconfig : config.Bounded) (hb : b.Limited) :
    ∀ (ds : List Decl) (built : Built) (cache : Cache ValueType), (∀ d ∈ ds, d.Written) →
      built.graph.Sound → Reached cache →
      (∃ s, Steps config b ds (built, cache) s ∧
        (ds.foldlM (addDecl config b) built : Binder.Binding Built).runOn cache = (.ok s.1, s.2)) ∨
      ∃ d ∈ ds, ∃ f, d.Escapes config f ∧
        ((ds.foldlM (addDecl config b) built : Binder.Binding Built).runOn cache).1 = .error f
  | [], built, cache, _, _, _ => .inl ⟨(built, cache), .nil, rfl⟩
  | d :: ds, built, cache, hds, hsound, hcache => by
    -- the invariant is that the graph is sound and the cache reachable, which one step keeps
    obtain ⟨hd, hds⟩ := List.forall_mem_cons.mp hds
    have hkeeps := ensures_addDecl config b hsound d cache hcache
    rw [List.foldlM_cons, Binder.Binding.runOn_bind]
    rcases addDecl_cases config b built d cache with
      ⟨⟨built', cache'⟩, hstep, hrun⟩ | ⟨f, hbuild, hnot, hrun⟩
    · -- the others start from a graph that is still sound
      rw [hrun] at hkeeps ⊢
      have hsound' : built'.graph.Sound := by
        rcases hkeeps.2 built' rfl with hsame | ⟨c, hpush, hc, -⟩
        · rwa [hsame]
        · rw [hpush]
          exact hsound.push hc
      rcases steps_or_escapes hconfig hb ds built' cache' hds hsound' hkeeps.1 with
        ⟨s, hsteps, hothers⟩ | ⟨d', hd', f, hescapes, hothers⟩
      · exact .inl ⟨s, .cons hstep hsteps, hothers⟩
      · exact .inr ⟨d', List.mem_cons_of_mem d hd', f, hescapes, hothers⟩
    · -- what is not reported is one of the two faults that escape
      have hfails := Decl.atWorst_build hconfig hb hsound hd cache hcache f hbuild
      refine .inr ⟨d, List.mem_cons_self, f, hfails.resolve_left hnot, ?_⟩
      rcases hadd : (addDecl config b built d).runOn cache with ⟨e | built', cache'⟩
      · rw [hadd] at hrun
        exact hrun
      · rw [hadd] at hrun
        cases hrun

/-- **A build reports what fails.** Under a configuration that was loaded, the build of a
program that was parsed returns: each declaration has added its constant or is reported as an
error, and those behind it were built all the same. The exceptions are a bound on the
fractional width that is a double, where some declaration has a tolerance, and a format that
is too wide for its width to be written. -/
theorem build_reports {file name source : String} {document : Datum} {config : Config}
    {p : Program} {found : List Diagnostic} (hconfig : Registry.load file document = .ok config)
    (hparse : parse source name = .ok (p, found)) (origin : ℕ) {cache : Cache ValueType}
    (hcache : Reached cache) :
    (∃ built cache', (p.build config (config.binder origin)).runOn cache = (.ok built, cache') ∧
      Steps config (config.binder origin) p.statements ({ graph := { name := p.name } }, cache)
        (built, cache') ∧
      built.graph.constants.length + built.diagnostics.length = p.statements.length ∧
      ∀ r ∈ built.diagnostics, r.severity = .error) ∨
    ∃ d ∈ p.statements, ∃ f, d.Escapes config f ∧
      ((p.build config (config.binder origin)).runOn cache).1 = .error f := by
  have hbounded := Registry.bounded_of_load hconfig
  have hempty : ({ graph := { name := p.name } } : Built).graph.Sound :=
    fun c hc => absurd hc List.not_mem_nil
  rcases steps_or_escapes hbounded (b := config.binder origin) hbounded.total p.statements _ cache
      (written_of_parse hparse) hempty hcache with ⟨⟨built, cache'⟩, hsteps, hrun⟩ | hescapes
  · have herrors := hsteps.errors fun r hr => absurd hr List.not_mem_nil
    refine .inl ⟨built, cache', hrun, hsteps, ?_, herrors⟩
    simpa using hsteps.count
  · exact .inr hescapes

/-- The second of three declarations is reported, and the third is built. -/
theorem build_reports_second :
    let source := "const A = 1 within 0.5\nconst B = A within 0\nconst C = 2 within 0.5"
    ∃ config p found built, Registry.load "formats.yaml" Registry.standard = .ok config ∧
      parse source "<string>" = .ok (p, found) ∧
      ((p.build config (config.binder 0)).runOn {}).1 = .ok built ∧
      built.graph.names = ["A", "C"] ∧
      built.graph.constants.length + built.diagnostics.length = p.statements.length ∧
      ∀ r ∈ built.diagnostics, r.severity = .error := by
  intro source
  have hload : Registry.load "formats.yaml" Registry.standard = .ok .standard := by cbv
  have hnames : (parse source "<string>").toOption.bind (fun r =>
      ((r.1.build .standard (Config.standard.binder 0)).runOn {}).1.toOption.map
        (·.graph.names)) = some ["A", "C"] := by decide +kernel
  obtain ⟨⟨p, found⟩, hparse, hnames⟩ := Option.bind_eq_some_iff.mp hnames
  obtain ⟨built, hbuild, hnames⟩ := Option.map_eq_some_iff.mp hnames
  have hbuild := eq_ok_of_toOption hbuild
  have hparse := eq_ok_of_toOption hparse
  rcases build_reports hload hparse 0 .empty with
    ⟨built', cache', hrun, -, hcount, herrors⟩ | ⟨d, hd, f, -, herror⟩
  · rw [hrun] at hbuild
    cases hbuild
    exact ⟨.standard, p, found, built, hload, hparse, by rw [hrun], hnames, hcount, herrors⟩
  · rw [hbuild] at herror
    cases herror

/-- The build of a program need not return, even for a registry and a text without any
problem: the bound on the fractional width may be the double 52, with which no step of the
search can be computed. -/
theorem not_forall_build_returns :
    ¬ ∀ (file name source : String) (document : Datum) (config : Config) (p : Program)
      (found : List Diagnostic), Registry.load file document = .ok config →
      parse source name = .ok (p, found) →
      ∃ built, ((p.build config (config.binder 0)).runOn {}).1 = .ok built := by
  intro hall
  let config := Registry.limits (.real (.ofRatio false 52 1)) (.int 1024)
  have hload : Registry.load "formats.yaml" (Registry.ofConfig config) = .ok config :=
    Registry.load_limits (eq_ok_of_toOption (by decide +kernel))
      (eq_ok_of_toOption (by decide +kernel)) "formats.yaml"
  have hfails : (parse "const A = 1 within 0.5" "<string>").toOption.map (fun r =>
      (((r.1.build config (config.binder 0)).runOn {}).1.toOption.isSome, r.2.length)) =
      some (false, 0) := by decide +kernel
  obtain ⟨⟨p, found⟩, hparse, hfails⟩ := Option.map_eq_some_iff.mp hfails
  obtain ⟨built, hbuild⟩ := hall _ _ _ _ _ p found hload (eq_ok_of_toOption hparse)
  rw [hbuild] at hfails
  cases hfails

end BinaryPoint.Program
