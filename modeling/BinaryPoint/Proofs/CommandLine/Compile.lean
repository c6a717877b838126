import BinaryPoint.CommandLine.Run
import BinaryPoint.Proofs.Graph.Report
import BinaryPoint.Proofs.Program.Declared
import BinaryPoint.Proofs.Registry.Presets

/-! # A clean compilation loses nothing

Whatever is left out of a text on its way to a graph is reported as an error: characters that
are in no token, tokens that fit no rule, declarations that cannot be built. So without an error
the graph has a constant for each declaration of the text, as they can be counted in its tokens.

* `Program.complete_of_compile`: the graph of a text without errors;
* `CommandLine.compile_loses_nothing`: the same, and when a run exits with zero;
* `CommandLine.not_forall_clean_exits`: a run without errors may fail to write its result.
-/

namespace BinaryPoint

open CommandLine (compileText configOf sourceText)

/-- A graph has all that the tokens of a text declare: a constant for each name behind a `const`,
in their order, and the name behind `program`. -/
structure Graph.Complete (g : Graph) (row : List Token) : Prop where
  declared : ∀ t ∈ followers .const row, t.kind = .name
  names : g.names = (followers .const row).map Token.lexeme
  nodup : g.names.Nodup
  header : g.name.toList = (followers .program row).map Token.lexeme

/-! ## Reports -/

/-- Reports that are all errors are none where there is no error. -/
theorem Diagnostic.eq_nil_of_errors {ds : List Diagnostic} (h : ∀ d ∈ ds, d.severity = .error)
    (hclean : ¬ hasErrors ds) : ds = [] := by
  cases ds with
  | nil => rfl
  | cons d ds => exact absurd (by simp [hasErrors, h d (.head _)]) hclean

theorem Diagnostic.not_hasErrors_append {ds ds' : List Diagnostic} :
    ¬ hasErrors (ds ++ ds') ↔ ¬ hasErrors ds ∧ ¬ hasErrors ds' := by
  simp [hasErrors, List.any_append]

namespace Program

/-- What lexing and parsing report are errors. -/
theorem errors_of_parse {source file : String} {p : Program} {found : List Diagnostic}
    (h : parse source file = .ok (p, found)) : ∀ d ∈ found, d.severity = .error := by
  obtain ⟨mismatches, -, rfl⟩ := parse_eq_ok.mp h
  refine List.forall_mem_append.mpr ⟨fun d hd => ?_, fun d hd => ?_⟩
  · obtain ⟨⟨q, x⟩, -, hx⟩ := List.mem_filterMap.mp hd
    dsimp only [Piece.diagnostic?] at hx
    split at hx <;> cases hx <;> rfl
  · obtain ⟨m, -, rfl⟩ := List.mem_map.mp hd
    rfl

/-! ## Compiling -/

variable {config : Config} {b : Binder} {cache : Cache ValueType} {source file : String}
  {built : Built}

/-- A compilation that returns has parsed and built, and gives all reports of both. -/
theorem compile_eq_ok :
    ((compile config b source file).runOn cache).1 = .ok built ↔
      ∃ p found built', parse source file = .ok (p, found) ∧
        ((p.build config b).runOn cache).1 = .ok built' ∧
        built = { built' with diagnostics := found ++ built'.diagnostics } := by
  rw [compile, Binder.Binding.runOn_bind, Binder.Binding.runOn_of]
  rcases parse source file with f | ⟨p, found⟩
  · simp
  · dsimp only
    rw [Binder.Binding.runOn_bind]
    rcases hbuild : (p.build config b).runOn cache with ⟨f | built', cache'⟩
    · simp [hbuild]
    · simp [hbuild, eq_comm]

/-- Where nothing is reported each declaration has become a constant. -/
theorem Fates.names_eq {g : Graph} {row : List (Decl × Fate)} (h : Fates config b cache g row)
    (hnone : row.filterMap (·.2.reported?) = []) :
    (row.filterMap (·.2.made?)).map (·.name) = row.map (·.1.name) := by
  induction h with
  | nil => rfl
  | made h _ ih =>
    simp only [List.filterMap_cons, Fate.reported?_made] at hnone
    simp only [List.filterMap_cons, Fate.made?_made, List.map_cons, h.named.2.1, ih hnone]
  | reported h _ ih => simp at hnone

/-- A text that is compiled without errors is in the graph with all its declarations. -/
theorem complete_of_compile (h : ((compile config b source file).runOn cache).1 = .ok built)
    (hclean : ¬ Diagnostic.hasErrors built.diagnostics) :
    built.graph.Complete (Lexed.ofText source file).row := by
  obtain ⟨p, found, built', hparse, hbuild, rfl⟩ := compile_eq_ok.mp h
  obtain ⟨hfound, hbuilt⟩ := Diagnostic.not_hasErrors_append.mp hclean
  -- nothing was found wrong with the text, so it is a program by the grammar
  have hnil := Diagnostic.eq_nil_of_errors (errors_of_parse hparse) hfound
  obtain ⟨mismatches, hstream, hall⟩ := parse_eq_ok.mp hparse
  obtain ⟨hlexed, hmismatches⟩ := List.append_eq_nil_iff.mp (hall ▸ hnil)
  rw [List.map_eq_nil_iff.mp hmismatches] at hstream
  obtain ⟨hnames, hheader⟩ := (derives_of_ofStream rfl hstream).names
  -- and each declaration was built
  obtain ⟨row, hrow, hfates, rfl⟩ := fates_of_run p.statements _ built' cache .refl hbuild
  have hreports : row.filterMap (·.2.reported?) = [] := by
    refine Diagnostic.eq_nil_of_errors (fun r hr => ?_) hbuilt
    obtain ⟨⟨d, fate⟩, hd, hfate⟩ := List.mem_filterMap.mp hr
    cases fate with
    | made c => cases hfate
    | reported r =>
      cases hfate
      obtain ⟨g, h⟩ := hfates.befalls hd
      exact h.severity
  have hmade := hfates.names_eq hreports
  have hdecls : row.map (·.1.name) = p.statements.map Decl.name := by
    rw [← hrow, List.map_map]
    rfl
  exact {
    declared := hnames.1
    names := (hmade.trans hdecls).trans hnames.2.symm
    nodup := hfates.nodup List.nodup_nil
    header := hheader.symm }

/-- The formats of a graph that was compiled from scratch can be written. -/
theorem writable_of_compile (h : ((compile config b source file).runOn {}).1 = .ok built) :
    ∀ c ∈ built.graph.constants, c.format.Writable := by
  obtain ⟨p, found, built', -, hbuild, rfl⟩ := compile_eq_ok.mp h
  obtain ⟨row, -, hfates, rfl⟩ := fates_of_run p.statements _ built' {} .refl hbuild
  intro c hc
  obtain ⟨⟨d, fate⟩, hd, hfate⟩ := List.mem_filterMap.mp hc
  cases fate with
  | reported r => cases hfate
  | made c =>
    cases hfate
    obtain ⟨g, h⟩ := hfates.befalls hd
    cases h with
    | made _ h => exact (Decl.ensures_writable config b d g {} Binder.legible_empty).2 c h

end Program

namespace CommandLine

/-- The lines of a graph, in JSON or as a table. -/
def written (g : Graph) (json : Bool) : Except Fault (List String) :=
  if json then do return [← (← g.toJson).render] else g.table

/-- A graph whose formats can be written has its lines, in JSON if its scaled integers can. -/
theorem exists_written_iff {g : Graph} (h : ∀ c ∈ g.constants, c.format.Writable) (json : Bool) :
    (∃ out, written g json = .ok out) ↔ (json → ∀ n ∈ g.raws, Decimal.Short n) := by
  cases json with
  | false =>
    -- the table has no scaled integers in it
    obtain ⟨lines, hlines⟩ := Graph.exists_table h
    simp [written, hlines]
  | true =>
    -- the document names them all
    rw [written, if_pos rfl, ← Graph.exists_render_iff h]
    constructor
    · rintro ⟨out, hout⟩ -
      obtain ⟨v, hv, hout⟩ := bind_eq_ok.mp hout
      obtain ⟨s, hs, -⟩ := bind_eq_ok.mp hout
      exact ⟨v, s, hv, hs⟩
    · intro hjson
      obtain ⟨v, s, hv, hs⟩ := hjson rfl
      exact ⟨[s], by rw [hv, ok_bind, hs]; rfl⟩

/-- A run compiles the text, and then writes the graph. -/
theorem compileText_eq (config : Config) (content file : String) (json : Bool) :
    compileText config content file json = (do
      let built ← ((Program.compile config (config.binder 0) content file).runOn {}).1
      let out ← written built.graph json
      .ok { out := joinLines out
            err := joinLines (built.diagnostics.map Diagnostic.text)
            code := if Diagnostic.hasErrors built.diagnostics then 1 else 0 }) := by
  cases json <;> simp [compileText, written]

/-- A run exits with zero if the compilation has no error and its result can be written. -/
theorem compileText_exits_iff {config : Config} {content file : String} {json : Bool} :
    (∃ o, compileText config content file json = .ok o ∧ o.code = 0) ↔
      ∃ built, ((Program.compile config (config.binder 0) content file).runOn {}).1 = .ok built ∧
        ¬ Diagnostic.hasErrors built.diagnostics ∧
        (json → ∀ n ∈ built.graph.raws, Decimal.Short n) := by
  rw [compileText_eq]
  constructor
  · rintro ⟨o, ho, hcode⟩
    obtain ⟨built, hcompile, ho⟩ := bind_eq_ok.mp ho
    obtain ⟨out, hout, ho⟩ := bind_eq_ok.mp ho
    cases ho
    -- the result was written, so only the errors decide on the code
    have hwritable := Program.writable_of_compile hcompile
    refine ⟨built, hcompile, fun herrors => ?_, (exists_written_iff hwritable json).mp ⟨out, hout⟩⟩
    rw [herrors] at hcode
    cases hcode
  · rintro ⟨built, hcompile, hclean, hshort⟩
    -- formats of a compiled graph can always be written
    have hwritable := Program.writable_of_compile hcompile
    obtain ⟨out, hout⟩ := (exists_written_iff hwritable json).mpr hshort
    refine ⟨_, bind_eq_ok.mpr ⟨built, hcompile, bind_eq_ok.mpr ⟨out, hout, rfl⟩⟩, ?_⟩
    exact if_neg hclean

/-- **A clean compilation loses nothing.** If a compilation returns without an error, then each
name behind a `const` in its text is the name of a constant, in their order and each only once,
and the name behind `program` is that of the graph. A run of the command on this text, with this
configuration, exits with zero in just this case; but to write the result in JSON, no scaled
integer may have too many digits. -/
theorem compile_loses_nothing (config : Config) (source : String) :
    (∀ (b : Binder) (cache : Cache ValueType) (file : String) (built : Program.Built),
      ((Program.compile config b source file).runOn cache).1 = .ok built →
      ¬ Diagnostic.hasErrors built.diagnostics →
      built.graph.Complete (Lexed.ofText source file).row) ∧
    ∀ (look : String → Found String) (file : String) (path : Option String) (json : Bool),
      configOf look path = .ok config → sourceText (look file) = .ok source →
      ((∃ o, compile look file path json = .ok o ∧ o.code = 0) ↔
        ∃ built,
          ((Program.compile config (config.binder 0) source file).runOn {}).1 = .ok built ∧
          ¬ Diagnostic.hasErrors built.diagnostics ∧
          (json → ∀ n ∈ built.graph.raws, Decimal.Short n)) := by
  constructor
  · intro b cache file built h hclean
    exact Program.complete_of_compile h hclean
  · intro look file path json hconfig hsource
    unfold compile
    rw [hconfig]
    dsimp only
    rw [hsource]
    exact compileText_exits_iff

/-- A program of two constants, in JSON. -/
theorem compile_loses_nothing_json :
    let source := "program p: const A = 1 within 0.5\nconst B : sfix<3, 2> = A"
    let look : String → Found String := fun _ => .file source
    ∃ built, configOf look none = .ok .standard ∧ sourceText (look "p.fix") = .ok source ∧
      ((Program.compile .standard (Config.standard.binder 0) source "p.fix").runOn {}).1 =
        .ok built ∧
      ¬ Diagnostic.hasErrors built.diagnostics ∧ (∀ n ∈ built.graph.raws, Decimal.Short n) ∧
      built.graph.Complete (Lexed.ofText source "p.fix").row ∧
      ∃ o, compile look "p.fix" none true = .ok o ∧ o.code = 0 := by
  intro source look
  have hcontent : sourceText (look "p.fix") = .ok source :=
    eq_ok_of_toOption (by decide +kernel)
  have hrun :
      (((Program.compile .standard (Config.standard.binder 0) source "p.fix").runOn
        {}).1.toOption.map fun built =>
          (Diagnostic.hasErrors built.diagnostics,
            decide (∀ n ∈ built.graph.raws, Decimal.Short n))) = some (false, true) := by
    decide +kernel
  obtain ⟨built, hbuild, hfacts⟩ := Option.map_eq_some_iff.mp hrun
  obtain ⟨hclean, hshort⟩ := Prod.mk.inj hfacts
  have hbuild := eq_ok_of_toOption hbuild
  have hclean : ¬ Diagnostic.hasErrors built.diagnostics := by simp [hclean]
  have hshort := of_decide_eq_true hshort
  refine ⟨built, rfl, hcontent, hbuild, hclean, hshort, ?_, ?_⟩
  · exact (compile_loses_nothing .standard source).1 _ _ _ built hbuild hclean
  · exact ((compile_loses_nothing .standard source).2 look "p.fix" none true rfl hcontent).mpr
      ⟨built, hbuild, hclean, fun _ => hshort⟩

/-- A run need not exit with zero where no error is reported: a registry may allow formats of any
width, also those whose scaled integers have too many digits to be written in JSON. -/
theorem not_forall_clean_exits :
    ¬ ∀ (file source name : String) (document : Datum) (config : Config) (json : Bool)
      (built : Program.Built), Registry.load file document = .ok config →
      ((Program.compile config (config.binder 0) source name).runOn {}).1 = .ok built →
      ¬ Diagnostic.hasErrors built.diagnostics →
      ∃ o, compileText config source name json = .ok o ∧ o.code = 0 := by
  intro hall
  -- a limit of 20000 bits allows a scaled integer of more than 4300 digits
  let config := Registry.limits (.int 52) (.int 20000)
  have hload : Registry.load "formats.yaml" (Registry.ofConfig config) = .ok config :=
    Registry.load_limits (eq_ok_of_toOption (by decide +kernel))
      (eq_ok_of_toOption (by decide +kernel)) "formats.yaml"
  have hrun :
      (((Program.compile config (config.binder 0) "const X : ufix<0, 14290> = 1" "p.fix").runOn
        {}).1.toOption.map fun built =>
          (Diagnostic.hasErrors built.diagnostics, built.graph.raws)) =
        some (false, [2 ^ 14290]) := by
    decide +kernel
  obtain ⟨built, hbuild, hfacts⟩ := Option.map_eq_some_iff.mp hrun
  obtain ⟨hclean, hraws⟩ := Prod.mk.inj hfacts
  have hbuild := eq_ok_of_toOption hbuild
  have hexits := hall _ _ _ _ _ true built hload hbuild (by simp [hclean])
  obtain ⟨built', hbuild', -, hshort⟩ := compileText_exits_iff.mp hexits
  rw [hbuild] at hbuild'
  cases hbuild'
  have hlong : ¬ Decimal.Short (2 ^ 14290) := by decide +kernel
  exact hlong (hshort rfl _ (hraws ▸ List.mem_singleton_self _))

end CommandLine

end BinaryPoint
