import BinaryPoint.Proofs.Graph.Locations
import BinaryPoint.Proofs.Graph.Reporting
import BinaryPoint.Proofs.Program.Accepted

/-! # Failures are kept apart

Each declaration of a program becomes a constant or a report, and a report leaves nothing behind
that a later declaration could see: the graph is as it was, and the cache answers as it did. So
what the others become does not depend on a declaration that failed.

* `Fate`, `Program.Fates`: what becomes of each declaration, all of them built from one cache;
* `Program.fates_of_run`, `Program.Fates.run`: the builds of a program are its fates, by
  induction along the program;
* `Program.Fates.erase`: a report may be left out, with its declaration;
* `Program.build_isolates`: the reports of a build, and the build without one of them.
-/

namespace BinaryPoint

open Binder.Binding (Steady Ensures)

/-! ## One declaration -/

namespace Decl

theorem steady_bindSamples (b : Binder) (d : Decl) (g : Graph) (samples : List Binary64)
    (f : Format) : Steady b (d.bindSamples b g samples f) := by
  rw [bindSamples]
  split
  · exact .mapM fun v => b.steady_reformat v f
  · exact .mapM fun x => b.steady_bind f x

/-- The build of a declaration depends on the graph, and on no request made before. -/
theorem steady_build (config : Config) (b : Binder) (d : Decl) (g : Graph) :
    Steady b (d.build config b g) := by
  rw [build]
  refine Steady.bind (.of _) fun _ => Steady.bind (.of _) ?_
  rintro ⟨samples, scalar⟩
  dsimp only
  split
  · exact Steady.bind (.of _) fun _ => Steady.bind (.of _) fun r =>
      (steady_bindSamples b d g samples r.1).bind fun _ => .pure _
  · exact Steady.bind (.of _) fun r =>
      (steady_bindSamples b d g samples r.1).bind fun _ => .pure _

/-- A constant has the name and the position of its declaration. -/
theorem ensures_named (config : Config) (b : Binder) (d : Decl) (g : Graph) :
    Ensures (fun _ => True) (d.build config b g) fun c => c.name = d.name ∧ c.place = d.place := by
  rw [build]
  refine Ensures.bind .any fun _ _ => Ensures.bind .any ?_
  rintro ⟨samples, scalar⟩ -
  dsimp only
  split
  · exact Ensures.of_bind fun _ h => absurd h (refuse_ne_ok _ _)
  · exact Ensures.bind .any fun _ _ => Ensures.bind .any fun _ _ => .pure ⟨rfl, rfl⟩

end Decl

/-- What becomes of a declaration. -/
inductive Fate
  | made (c : Constant)
  | reported (r : Diagnostic)

namespace Fate

/-- The constant that was made. -/
def made? : Fate → Option Constant
  | made c => some c
  | reported _ => none

/-- The report. -/
def reported? : Fate → Option Diagnostic
  | made _ => none
  | reported r => some r

@[simp] theorem made?_made (c : Constant) : (made c).made? = some c := rfl

@[simp] theorem made?_reported (r : Diagnostic) : (reported r).made? = none := rfl

@[simp] theorem reported?_made (c : Constant) : (made c).reported? = none := rfl

@[simp] theorem reported?_reported (r : Diagnostic) : (reported r).reported? = some r := rfl

end Fate

namespace Program

/-- The build after one more declaration. -/
def Built.after (built : Built) : Fate → Built
  | .made c => { built with graph := built.graph.push c }
  | .reported r => { built with diagnostics := built.diagnostics ++ [r] }

variable {config : Config} {b : Binder} {cache : Cache ValueType}

/-- What becomes of a declaration over a graph, if it is built from the given cache. -/
inductive Befalls (config : Config) (b : Binder) (cache : Cache ValueType) (g : Graph) (d : Decl) :
    Fate → Prop
  | taken (h : g.contains d.name) : Befalls config b cache g d (.reported (duplicate d))
  | made {c : Constant} (hnew : ¬ g.contains d.name)
      (h : ((d.build config b g).runOn cache).1 = .ok c) : Befalls config b cache g d (.made c)
  | failed {f : Fault} (hnew : ¬ g.contains d.name) (hreported : f.reported)
      (h : ((d.build config b g).runOn cache).1 = .error f) :
      Befalls config b cache g d (.reported (.ofFault f d.place))

namespace Befalls

variable {g : Graph} {d : Decl}

theorem named {c : Constant} (h : Befalls config b cache g d (.made c)) :
    ¬ g.contains c.name ∧ c.name = d.name ∧ c.place = d.place := by
  cases h with
  | made hnew h =>
    obtain ⟨hname, hplace⟩ := (Decl.ensures_named config b d g cache trivial).2 c h
    exact ⟨hname ▸ hnew, hname, hplace⟩

/-- A report is an error. -/
theorem severity {r : Diagnostic} (h : Befalls config b cache g d (.reported r)) :
    r.severity = .error := by
  cases h <;> rfl

/-- A report is at a position that the declaration has from one of its tokens. -/
theorem located {r : Diagnostic} (h : Befalls config b cache g d (.reported r)) {ts : List Token}
    (hts : Decl.Derives ts d) : ∃ t ∈ ts, r.place = some t.place := by
  cases h with
  | taken => exact hts.exists_token none nofun
  | failed _ _ h => exact hts.exists_token _ (Decl.placed_build config b d g cache trivial _ h)

/-- From a cache with the same answers a declaration has the same fate, and it leaves them. -/
theorem run {fate : Fate} (h : Befalls config b cache g d fate) {built : Built}
    (hg : built.graph = g) {cache' : Cache ValueType} (hagrees : b.Agrees cache' cache) :
    ∃ cache'', (addDecl config b built d).runOn cache' = (.ok (built.after fate), cache'') ∧
      b.Agrees cache'' cache := by
  subst hg
  obtain ⟨hsame, hkeeps⟩ := Decl.steady_build config b d built.graph
  -- the build comes to the same from both caches, and its requests change no answer
  have hsame := hsame cache' cache hagrees
  have hkeeps := (hkeeps cache').trans hagrees
  rw [addDecl]
  cases h with
  | taken h =>
    rw [if_pos h]
    exact ⟨cache', rfl, hagrees⟩
  | made hnew h =>
    rw [if_neg hnew, Binder.Binding.runOn_bind, Binder.Binding.runOn_outcome, hsame, h]
    exact ⟨_, rfl, hkeeps⟩
  | failed hnew hreported h =>
    rw [if_neg hnew, Binder.Binding.runOn_bind, Binder.Binding.runOn_outcome, hsame, h]
    simp only [hreported, if_true]
    exact ⟨_, rfl, hkeeps⟩

end Befalls

/-- The other way about: a step of a build tells the fate of a declaration. -/
theorem befalls_of_run {built built' : Built} {d : Decl} {cache' cache'' : Cache ValueType}
    (hagrees : b.Agrees cache' cache)
    (h : (addDecl config b built d).runOn cache' = (.ok built', cache'')) :
    ∃ fate, Befalls config b cache built.graph d fate ∧ built' = built.after fate ∧
      b.Agrees cache'' cache := by
  have hsame := (Decl.steady_build config b d built.graph).1 cache' cache hagrees
  -- what befalls the declaration on this cache befalls it on the one it agrees with
  have hfate : ∃ fate, Befalls config b cache built.graph d fate := by
    rcases addDecl_cases config b built d cache' with ⟨s, hstep, -⟩ | ⟨f, -, -, hrun⟩
    · cases hstep with
      | taken htaken => exact ⟨_, .taken htaken⟩
      | added hnew hrun => exact ⟨_, .made hnew (by rw [← hsame, hrun])⟩
      | failed hnew hreported hrun => exact ⟨_, .failed hnew hreported (by rw [← hsame, hrun])⟩
    · rw [h] at hrun
      cases hrun
  obtain ⟨fate, hfate⟩ := hfate
  -- and a fate leads to one result only
  obtain ⟨_, hrun, hkeeps⟩ := hfate.run rfl hagrees
  rw [h] at hrun
  obtain ⟨hbuilt, rfl⟩ := Prod.mk.inj hrun
  exact ⟨fate, hfate, Except.ok.inj hbuilt, hkeeps⟩

/-! ## All declarations -/

/-- What becomes of declarations in a row, over a graph that grows. -/
inductive Fates (config : Config) (b : Binder) (cache : Cache ValueType) :
    Graph → List (Decl × Fate) → Prop
  | nil {g : Graph} : Fates config b cache g []
  | made {g : Graph} {d : Decl} {c : Constant} {row : List (Decl × Fate)}
      (h : Befalls config b cache g d (.made c)) (hrow : Fates config b cache (g.push c) row) :
      Fates config b cache g ((d, .made c) :: row)
  | reported {g : Graph} {d : Decl} {r : Diagnostic} {row : List (Decl × Fate)}
      (h : Befalls config b cache g d (.reported r)) (hrow : Fates config b cache g row) :
      Fates config b cache g ((d, .reported r) :: row)

/-- The constants and the reports of a row of declarations, behind those of a build. -/
def Built.afterAll (built : Built) (row : List (Decl × Fate)) : Built where
  graph := { built.graph with constants := built.graph.constants ++ row.filterMap (·.2.made?) }
  diagnostics := built.diagnostics ++ row.filterMap (·.2.reported?)

theorem Built.afterAll_cons (built : Built) (d : Decl) (fate : Fate) (row : List (Decl × Fate)) :
    built.afterAll ((d, fate) :: row) = (built.after fate).afterAll row := by
  cases fate <;>
    simp [afterAll, after, Graph.push, List.filterMap_cons]

/-- Each declaration counts once. -/
theorem length_fates (row : List (Decl × Fate)) :
    (row.filterMap (·.2.made?)).length + (row.filterMap (·.2.reported?)).length = row.length := by
  induction row with
  | nil => rfl
  | cons x row ih =>
    obtain ⟨d, c | r⟩ := x <;> simp [List.filterMap_cons] <;> omega

namespace Fates

variable {g : Graph} {row : List (Decl × Fate)}

/-- Fates that were found from one cache are those of a build from any with the same answers. -/
theorem run (h : Fates config b cache g row) (built : Built) (hg : built.graph = g)
    {cache' : Cache ValueType} (hagrees : b.Agrees cache' cache) :
    (((row.map Prod.fst).foldlM (addDecl config b) built :
      Binder.Binding Built).runOn cache').1 = .ok (built.afterAll row) := by
  induction h generalizing built cache' with
  | nil =>
    subst hg
    simp [Built.afterAll]
  | made h _ ih | reported h _ ih =>
    obtain ⟨cache'', hrun, hkeeps⟩ := h.run hg hagrees
    rw [List.map_cons, List.foldlM_cons, Binder.Binding.runOn_bind, hrun]
    dsimp only
    rw [Built.afterAll_cons]
    -- the cache has changed, but answers the next declaration as the first cache did
    exact ih _ (by subst hg; rfl) hkeeps

/-- A declaration that was reported may be left out. -/
theorem erase {before after : List (Decl × Fate)} {d : Decl} {r : Diagnostic}
    (h : Fates config b cache g (before ++ (d, .reported r) :: after)) :
    Fates config b cache g (before ++ after) := by
  induction before generalizing g with
  | nil =>
    cases h with
    | reported _ h => exact h
  | cons x before ih =>
    cases h with
    | made h hrow => exact .made h (ih hrow)
    | reported h hrow => exact .reported h (ih hrow)

theorem befalls {d : Decl} {fate : Fate} (h : Fates config b cache g row) (hd : (d, fate) ∈ row) :
    ∃ g', Befalls config b cache g' d fate := by
  induction h with
  | nil => cases hd
  | made h _ ih | reported h _ ih =>
    rcases List.mem_cons.mp hd with hd | hd
    · cases hd
      exact ⟨_, h⟩
    · exact ih hd

/-- No name is taken twice. -/
theorem nodup (h : Fates config b cache g row) (hg : g.names.Nodup) :
    (g.names ++ (row.filterMap (·.2.made?)).map (·.name)).Nodup := by
  induction h with
  | nil => simpa using hg
  | reported _ _ ih => exact ih hg
  | @made g d c row h _ ih =>
    -- a constant is made only of a name that the graph does not have
    have hnew : c.name ∉ g.names := by
      have hnew := h.named.1
      simpa [Graph.contains, Graph.names] using hnew
    have hpush : (g.push c).names = g.names ++ [c.name] := by simp [Graph.names, Graph.push]
    have h := ih (hpush ▸ List.nodup_append.mpr ⟨hg, List.nodup_singleton _, by
      rintro x hx y hy rfl
      exact hnew (List.mem_singleton.mp hy ▸ hx)⟩)
    rw [hpush] at h
    simpa [List.filterMap_cons] using h

end Fates

/-- The fates of declarations are told by their build. -/
theorem fates_of_run :
    ∀ (ds : List Decl) (built built' : Built) (cache' : Cache ValueType), b.Agrees cache' cache →
      ((ds.foldlM (addDecl config b) built : Binder.Binding Built).runOn cache').1 = .ok built' →
      ∃ row, row.map Prod.fst = ds ∧ Fates config b cache built.graph row ∧
        built' = built.afterAll row
  | [], built, built', _, _, h => by
    cases h
    exact ⟨[], rfl, .nil, by simp [Built.afterAll]⟩
  | d :: ds, built, built', cache', hagrees, h => by
    rw [List.foldlM_cons, Binder.Binding.runOn_bind] at h
    rcases hrun : (addDecl config b built d).runOn cache' with ⟨e | between, cache''⟩
    · rw [hrun] at h
      cases h
    · rw [hrun] at h
      obtain ⟨fate, hfate, rfl, hkeeps⟩ := befalls_of_run hagrees hrun
      obtain ⟨row, rfl, hrow, rfl⟩ := fates_of_run ds _ built' cache'' hkeeps h
      refine ⟨(d, fate) :: row, rfl, ?_, (built.afterAll_cons d fate row).symm⟩
      cases fate with
      | made c => exact .made hfate hrow
      | reported r => exact .reported hfate hrow

/-! ## The whole program -/

/-- The row says what became of each declaration of a program, and the failures among them are
kept apart. -/
structure KeptApart (tokens : List Token) (config : Config) (b : Binder)
    (cache : Cache ValueType) (p : Program) (built : Built) (row : List (Decl × Fate)) :
    Prop where
  declarations : row.map Prod.fst = p.statements
  constants : built.graph.constants = row.filterMap (·.2.made?)
  reports : built.diagnostics = row.filterMap (·.2.reported?)
  count : built.graph.constants.length + built.diagnostics.length = p.statements.length
  nodup : built.graph.names.Nodup
  named : ∀ d c, (d, .made c) ∈ row → c.name = d.name ∧ c.place = d.place
  /-- A report is one error, at a token of its declaration. -/
  located : ∀ d r, (d, .reported r) ∈ row → r.severity = .error ∧
    ∃ ts, ts <:+: tokens ∧ Decl.Derives ts d ∧ ∃ t ∈ ts, r.place = some t.place
  /-- Without a declaration that was reported, the others become what they were. -/
  erased : ∀ before d r after, row = before ++ (d, .reported r) :: after →
    let others : Program := { p with statements := (before ++ after).map Prod.fst }
    ((others.build config b).runOn cache).1 =
      .ok ⟨built.graph, (before ++ after).filterMap (·.2.reported?)⟩

/-- **Failures are kept apart.** Whenever the build of a program that was parsed returns, each of
its declarations has become a constant of its name, or is reported as one error at one of its
tokens; constants and reports are in the order of the declarations, and no name is taken twice.
Without a declaration that was reported, the same constants are built, and the other reports
made. -/
theorem build_isolates {source file : String} {p : Program} {found : List Diagnostic}
    (hparse : parse source file = .ok (p, found)) {config : Config} {b : Binder}
    {cache : Cache ValueType} {built : Built}
    (hbuild : ((p.build config b).runOn cache).1 = .ok built) :
    ∃ row, KeptApart (Lexed.ofText source file).tokens config b cache p built row := by
  obtain ⟨row, hrow, hfates, rfl⟩ := fates_of_run p.statements _ built cache .refl hbuild
  refine ⟨row, hrow, rfl, rfl, ?count, ?nodup, ?named, ?located, ?erased⟩
  case count =>
    rw [← hrow, List.length_map]
    exact length_fates row
  case nodup => exact hfates.nodup List.nodup_nil
  case named =>
    intro d c hd
    obtain ⟨g, h⟩ := hfates.befalls hd
    exact h.named.2
  -- the tokens of the declaration are a part of those of the text
  case located =>
    intro d r hd
    obtain ⟨g, h⟩ := hfates.befalls hd
    have hmem : d ∈ p.statements := hrow ▸ List.mem_map_of_mem hd
    obtain ⟨ts, hinfix, hts⟩ := derives_of_parse hparse d hmem
    exact ⟨h.severity, ts, hinfix, hts, h.located hts⟩
  -- the fates of the others do not depend on the one that was reported
  case erased =>
    rintro before d r after rfl others
    have hrun := hfates.erase.run { graph := { name := p.name } } rfl .refl
    have hsame : Built.afterAll { graph := { name := p.name } } (before ++ after) =
        ⟨(Built.afterAll { graph := { name := p.name } }
          (before ++ (d, .reported r) :: after)).graph,
          (before ++ after).filterMap (·.2.reported?)⟩ := by
      simp [Built.afterAll, List.filterMap_cons]
    rw [hsame] at hrun
    exact hrun

/-- The second of four declarations fails, and the third has the name of the first. -/
theorem build_isolates_second :
    let source := "const A = 1 within 0.5\nconst B = A within 0\nconst A = 2 within 0.5\n" ++
      "const C = 2 within 0.5"
    ∃ p found built row, parse source "p" = .ok (p, found) ∧
      ((p.build .standard (Config.standard.binder 0)).runOn {}).1 = .ok built ∧
      built.graph.names = ["A", "C"] ∧ built.diagnostics.length = 2 ∧
      KeptApart (Lexed.ofText source "p").tokens .standard (Config.standard.binder 0) {} p built
        row := by
  intro source
  have hnames : (parse source "p").toOption.bind (fun r =>
      ((r.1.build .standard (Config.standard.binder 0)).runOn {}).1.toOption.map
        fun built => (built.graph.names, built.diagnostics.length)) = some (["A", "C"], 2) := by
    decide +kernel
  obtain ⟨⟨p, found⟩, hparse, hnames⟩ := Option.bind_eq_some_iff.mp hnames
  obtain ⟨built, hbuild, hnames⟩ := Option.map_eq_some_iff.mp hnames
  obtain ⟨hnames, hlength⟩ := Prod.mk.inj hnames
  have hparse := eq_ok_of_toOption hparse
  have hbuild := eq_ok_of_toOption hbuild
  obtain ⟨row, hrow⟩ := build_isolates hparse hbuild
  exact ⟨p, found, built, row, hparse, hbuild, hnames, hlength, hrow⟩

end Program

end BinaryPoint
