import BinaryPoint.Proofs.Graph.Declaration

/-! # Accuracy of a built graph

A build goes through the declarations of a program in order, and each of them adds
a constant to the graph or leaves it as it is (`ensures_addDecl`). So every constant
of the final graph goes back to one declaration, and the constants before it are
those that the declarations before that one built. By induction over the
declarations every constant realizes its own (`build_realizes`).
-/

namespace BinaryPoint.Program

open Binder (Reached)
open Binder.Binding (Ensures)

variable (config : Config) (b : Binder)

/-! ## One declaration -/

/-- One declaration leaves the graph as it is or adds a constant that realizes it. -/
theorem ensures_addDecl {built : Built} (hg : built.graph.Sound) (d : Decl) :
    Ensures Reached (addDecl config b built d) fun built' =>
      built'.graph = built.graph ∨
        ∃ c, built'.graph = built.graph.push c ∧ c.Sound ∧
          ∃ samples, c.Realizes config built.graph d samples := by
  rw [addDecl]
  split
  · exact .pure (.inl rfl)
  · apply Ensures.bind (Decl.ensures_build hg config b d).outcome
    intro outcome houtcome
    cases outcome with
    | ok c => exact .pure (.inr ⟨c, rfl, houtcome c rfl⟩)
    | error f =>
      dsimp only
      split
      · exact .pure (.inl rfl)
      · exact .throw

/-! ## The whole program -/

/-- The program of the given declarations. -/
def withStatements (p : Program) (ds : List Decl) : Program := { p with statements := ds }

@[simp] theorem withStatements_statements (p : Program) : p.withStatements p.statements = p := rfl

/-- The last declaration is built on what those before it built. -/
theorem build_concat (p : Program) (ds : List Decl) (d : Decl) :
    (p.withStatements (ds ++ [d])).build config b =
      (p.withStatements ds).build config b >>= fun built => addDecl config b built d := by
  simp [build, withStatements]

/-- Each constant of a graph goes back to one of the declarations and realizes it over the
graph that the declarations before that one build, which has the constants before it. -/
def Traced (p : Program) (config : Config) (b : Binder) (cache : Cache ValueType)
    (ds : List Decl) (g : Graph) : Prop :=
  ∀ pre c post, g.constants = pre ++ c :: post →
    ∃ earlier d later before samples, ds = earlier ++ d :: later ∧
      (((p.withStatements earlier).build config b).runOn cache).1 = .ok before ∧
      before.graph.constants = pre ∧ c.Realizes config before.graph d samples

variable {config : Config} {b : Binder} {p : Program} {cache : Cache ValueType} {ds : List Decl}
  {d : Decl}

/-- A declaration that adds nothing leaves the trace as it is. -/
theorem Traced.skip {g : Graph} (h : p.Traced config b cache ds g) :
    p.Traced config b cache (ds ++ [d]) g := by
  intro pre c post hpost
  obtain ⟨earlier, d', later, before, samples, rfl, hbefore, hpre, hc⟩ := h pre c post hpost
  exact ⟨earlier, d', later ++ [d], before, samples, by simp, hbefore, hpre, hc⟩

/-- A constant that realizes the last declaration is traced to it, the others as before. -/
theorem Traced.push {before : Built} (h : p.Traced config b cache ds before.graph)
    (hbefore : (((p.withStatements ds).build config b).runOn cache).1 = .ok before)
    {c : Constant} {samples : List Binary64} (hc : c.Realizes config before.graph d samples) :
    p.Traced config b cache (ds ++ [d]) (before.graph.push c) := by
  intro pre c' post hpost
  rw [Graph.push] at hpost
  rcases List.eq_nil_or_concat post with rfl | ⟨post, last, rfl⟩
  · -- the last constant is the new one
    obtain ⟨hpre, hlast⟩ := List.append_inj' hpost rfl
    cases hlast
    exact ⟨ds, d, [], before, samples, rfl, hbefore, hpre, hc⟩
  · have hinit : before.graph.constants = pre ++ c' :: post := by
      have hsplit : before.graph.constants ++ [c] = (pre ++ c' :: post) ++ [last] := by
        simpa using hpost
      exact (List.append_inj' hsplit rfl).1
    exact h.skip pre c' post hinit

/-- A build keeps the cache reachable and makes a sound graph whose constants are traced. -/
theorem traced_of_build (hcache : Reached cache) {built : Built}
    (h : (((p.withStatements ds).build config b).runOn cache).1 = .ok built) :
    Reached (((p.withStatements ds).build config b).runOn cache).2 ∧ built.graph.Sound ∧
      p.Traced config b cache ds built.graph := by
  -- from the end, since the last declaration is built on what all the others built
  induction ds using List.reverseRecOn generalizing built with
  | nil =>
    cases h
    refine ⟨hcache, fun c hc => absurd hc List.not_mem_nil, fun pre c post hpost => ?_⟩
    simp at hpost
  | append_singleton ds d ih =>
    rw [build_concat, Binder.Binding.runOn_bind] at h ⊢
    rcases hrun : ((p.withStatements ds).build config b).runOn cache with ⟨e | before, between⟩
    · simp [hrun] at h
    · simp only [hrun] at h ih ⊢
      obtain ⟨hreached, hsound, htraced⟩ := ih rfl
      have hadd := ensures_addDecl config b hsound d between hreached
      refine ⟨hadd.1, ?_⟩
      rcases hadd.2 built h with hsame | ⟨c, hpush, hc, samples, hrealizes⟩
      · rw [hsame]
        exact ⟨hsound, htraced.skip⟩
      · rw [hpush]
        exact ⟨hsound.push hc, htraced.push (by rw [hrun]) hrealizes⟩

theorem sound_of_build (hcache : Reached cache) {built : Built}
    (h : ((p.build config b).runOn cache).1 = .ok built) : built.graph.Sound := by
  rw [← withStatements_statements p] at h
  exact (traced_of_build hcache h).2.1

/-- Every constant of a built graph realizes its declaration: it has the roundings of the samples
that the declaration denotes, in the format that it denotes. -/
theorem build_realizes (hcache : Reached cache) {built : Built}
    (h : ((p.build config b).runOn cache).1 = .ok built) :
    ∀ pre c post, built.graph.constants = pre ++ c :: post →
      ∃ earlier d later before samples, p.statements = earlier ++ d :: later ∧
        (((p.withStatements earlier).build config b).runOn cache).1 = .ok before ∧
        before.graph.constants = pre ∧ c.Realizes config before.graph d samples :=
  (traced_of_build hcache h).2.2

/-- A constant inferred from its value, and one that takes it over in a narrower format. -/
theorem build_realizes_narrowed :
    let eighths : Decl := ⟨"W", .real (.ofRatio false 9 8) none, none,
      some (.real (.ofRatio false 1 1000) none), none⟩
    let halves : Decl := ⟨"Z", .name "W" none, some (.explicit (.bool true) 2 1 none), none, none⟩
    let p : Program := ⟨none, [eighths, halves], none⟩
    ∃ built W Z, ((p.build .standard ⟨.int 1024, 0⟩).runOn {}).1 = .ok built ∧
      built.graph.constants = [W, Z] ∧ W.values.map (·.raw) = [9] ∧ Z.values.map (·.raw) = [2] ∧
      ∃ earlier d later before samples, p.statements = earlier ++ d :: later ∧
        (((p.withStatements earlier).build .standard ⟨.int 1024, 0⟩).runOn {}).1 = .ok before ∧
        before.graph.constants = [W] ∧ Z.Realizes .standard before.graph d samples := by
  intro eighths halves p
  have hraws : ((p.build .standard ⟨.int 1024, 0⟩).runOn {}).1.toOption.map
      (fun built => built.graph.constants.map (·.values.map (·.raw))) = some [[9], [2]] := by
    decide +kernel
  obtain ⟨built, hbuilt, hconstants⟩ := Option.map_eq_some_iff.mp hraws
  obtain ⟨W, Z, hpair⟩ := List.length_eq_two.mp (by simpa using congrArg List.length hconstants)
  have h := eq_ok_of_toOption hbuilt
  rw [hpair] at hconstants
  obtain ⟨hW, hZ⟩ : W.values.map (·.raw) = [9] ∧ Z.values.map (·.raw) = [2] := by
    simpa using hconstants
  exact ⟨built, W, Z, h, hpair, hW, hZ, build_realizes .empty h [W] Z [] hpair⟩

end BinaryPoint.Program
