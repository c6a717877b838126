import BinaryPoint.Proofs.CommandLine.Compile
import BinaryPoint.Proofs.Program.PresetUse
import BinaryPoint.Proofs.Yaml.Keys

/-! # The presets of a configuration in programs

A preset is there to be named in declarations, as in `const X : name = 0`. Loading a registry
checks its name and its width, but not all that a program asks of it: the name may end in a line
break or be no text, and the format may be one that no value type is made of, because its
values are beyond the range of doubles or its widths are too long to be written.

* `CommandLine.usable_iff`: which presets of a configuration can be used;
* `CommandLine.not_forall_usable`: a registry with one that cannot.
-/

namespace BinaryPoint

/-! ## What the checks tell of a preset -/

namespace Registry

/-- A preset without problems has a name of its own and is no wider than the limit. -/
theorem presetProblems_eq_nil {limit : Datum} {e : Datum × Datum}
    (h : presetProblems limit e = .ok []) :
    (∀ w ∈ reservedNames, e.1 ≠ .text w) ∧
      ∃ width, presetWidth e.2 = .ok width ∧ width.compare .greater limit = .ok false := by
  obtain ⟨width, hwidth, h⟩ := bind_eq_ok.mp h
  obtain ⟨tooWide, htooWide, h⟩ := bind_eq_ok.mp h
  generalize hreserved : (reservedNames.any fun w => e.1.eq (.text w)) = reserved at h
  -- each of the two reports stays in the list, whatever comes of the other
  have hclean : reserved = false ∧ tooWide = false := by
    cases reserved <;> cases tooWide <;> simp [bind_eq_ok] at h ⊢
  obtain ⟨rfl, rfl⟩ := hclean
  refine ⟨fun w hw hname => ?_, width, hwidth, htooWide⟩
  exact Bool.false_ne_true (hreserved.symm.trans
    (List.any_eq_true.mpr ⟨w, hw, Datum.eq_text.mpr hname⟩))

/-- The sum of the bits of a preset is the width of its format. -/
theorem presetWidth_of_presetFormat {e : Datum × Datum} {p : Datum × Format}
    (h : presetFormat e = .ok p) : presetWidth e.2 = .ok (.int p.2.width) := by
  obtain ⟨-, hsigned, hinteger, hfractional⟩ := presetFormat_eq_ok.mp h
  rw [presetWidth, hsigned, hinteger, hfractional, Format.width]
  push_cast
  rfl

/-- A width exceeds a limit when it is the greater one of the two. -/
theorem exceeds_eq_compare (width : ℕ) (limit : Datum) :
    Binder.exceeds width limit = (Datum.int width).compare .greater limit := by
  have hgreater (n : Datum.Number) :
      decide (Datum.Number.compare? (.int width) n = some .gt) =
        (Datum.Number.compare? (.int width) n).any Comparison.greater.holds := by
    rcases Datum.Number.compare? (.int width) n with - | (- | - | -) <;> rfl
  cases limit <;> simp only [Binder.exceeds, Datum.compare, Datum.number?, hgreater] <;> rfl

/-- What a registry that is loaded tells of the presets of its configuration. -/
structure Loaded (config : Config) (e : Datum × Format) : Prop where
  name : ∀ s, e.1 = .text s → Pattern.name.matchesText s ∧ s ∉ reservedNames
  fits : Binder.exceeds e.2.width config.maxTotalBits = .ok false

theorem loaded_of_load {file : String} {d : Datum} {config : Config}
    (h : load file d = .ok config) : ∀ e ∈ config.formats, Loaded config e := by
  obtain ⟨hproblems, formats, hformats, rfl⟩ := load_eq_ok.mp h
  intro p hp
  obtain ⟨e, he, hformat⟩ := exists_of_mem_mapM hformats hp
  have hshape := shape_of_problems hproblems
  have hpreset := presets_of_shape hshape e he
  obtain ⟨hnames, width, hwidth, hfits⟩ :=
    presetProblems_eq_nil (presetProblems_of_problems hproblems e he)
  rw [presetWidth_of_presetFormat hformat] at hwidth
  cases hwidth
  obtain ⟨hname, -⟩ := presetFormat_eq_ok.mp hformat
  refine ⟨fun s hs => ⟨hpreset.name s (hname ▸ hs), fun hmem => ?_⟩, exceeds_eq_compare .. ▸ hfits⟩
  exact hnames s hmem (hname ▸ hs)

theorem distinct_part {d : Datum} (h : d.Distinct) (key : String) : (part key d).Distinct := by
  cases d with
  | map es =>
    rw [part]
    cases hlookup : Datum.lookup (.text key) es with
    | none => trivial
    | some v =>
      obtain ⟨e, he, rfl⟩ := Option.map_eq_some_iff.mp hlookup
      exact (Datum.distinct_map.mp h).2 e (List.mem_of_find?_eq_some he)
  | _ => trivial

/-- In a registry that is put together the keys differ if they do among its presets. -/
theorem distinct_registry {fractional total : Datum} {es : List (Datum × Datum)}
    (hfractional : fractional.Distinct) (htotal : total.Distinct) (h : (Datum.map es).Distinct) :
    (registry fractional total es).Distinct := by
  have hlimit : ∀ (key : String) (v : Datum), v.Distinct → (Datum.map [(.text key, v)]).Distinct :=
    fun key v hv => Datum.distinct_map.mpr ⟨List.pairwise_singleton _ _, by simpa using hv⟩
  refine Datum.distinct_map.mpr ⟨by simp [Datum.eq], ?_⟩
  simp only [List.forall_mem_cons, List.not_mem_nil, false_imp_iff, implies_true, and_true]
  exact ⟨trivial, hlimit _ _ hfractional, hlimit _ _ htotal, h⟩

theorem distinct_ofFormat (f : Format) : (ofFormat f).Distinct :=
  Datum.distinct_map.mpr ⟨by simp [Datum.eq], by simp [Datum.Distinct]⟩

/-- The formats have the names of the presets. -/
theorem names_of_mapM_presetFormat {es : List (Datum × Datum)} {formats : List (Datum × Format)}
    (h : es.mapM presetFormat = .ok formats) : formats.map (·.1) = es.map (·.1) := by
  induction mapM_eq_ok.mp h with
  | nil => rfl
  | cons hp hps ih =>
    rw [List.map_cons, List.map_cons, ih (mapM_eq_ok.mpr hps), (presetFormat_eq_ok.mp hp).1]

/-- In a registry whose keys differ each preset is found under its name. -/
theorem preset_of_mem {file : String} {d : Datum} (hd : d.Distinct) {config : Config}
    (h : load file d = .ok config) {s : String} {f : Format}
    (hmem : (.text s, f) ∈ config.formats) : config.preset s = some f := by
  obtain ⟨-, formats, hformats, rfl⟩ := load_eq_ok.mp h
  have hpresets : ((presets d).map (·.1)).Pairwise fun a b => a.eq b = false := by
    have hpart := distinct_part hd "formats"
    rw [List.pairwise_map, presets]
    split
    · next es hes => exact (Datum.distinct_map.mp (hes ▸ hpart)).1
    · exact .nil
  rw [← names_of_mapM_presetFormat hformats, List.pairwise_map] at hpresets
  rw [Config.preset, Datum.find?_eq_some_of_mem hpresets hmem]
  rfl

end Registry

/-! ## Building the declaration -/

/-- Zero is rounded to a format if a type can be made for it, since every format holds zero. -/
theorem exists_bind_zero_iff {b : Binder} {f : Format} :
    (∃ v, ((b.bind f (.ofInt 0)).runOn {}).1 = .ok v) ↔ ∃ t, b.synthesize f = .ok t := by
  have hnew := b.runOn_typeForFormat_of_none (show Cache.get? {} f = none by simp)
  -- a type that is there holds zero, whatever its format
  have hround : ∀ t : ValueType, ∃ v, Binder.roundTo t (.ofInt 0) = .ok v := by
    intro t
    have hzero : (Binary64.ofInt 0).toRat = 0 := by decide +kernel
    have hscaled : (Binary64.ofInt 0).scaled t.format.fractionalBits = 0 := by
      rw [Binary64.scaled_eq_halfUp, hzero]
      exact halfUp_of_eq (by simp)
    refine ⟨⟨t, 0, t.format.holds_zero⟩, ?_⟩
    rw [Binder.roundTo, if_pos (by decide +kernel), hscaled, Fixed.ofRaw, dif_pos]
  show (∃ v, ((b.typeForFormat f >>= fun t => .of (.bind (.ok (.ofInt 0)) (Binder.roundTo t))).runOn
    {}).1 = .ok v) ↔ _
  rw [Binder.Binding.runOn_bind, hnew]
  cases hmake : b.synthesize f with
  | error e => simp
  | ok t => simpa [Except.bind] using hround t

/-- The declaration is built if the format of its preset has a value type. -/
theorem exists_build_presetDecl_iff {config : Config} {name : String} {f : Format}
    (h : config.preset name = some f) (b : Binder) (g : Graph) (value format first : Location) :
    (∃ c, (((presetDecl name value format first).build config b g).runOn {}).1 = .ok c ∧
        c.format = f) ↔ ∃ t, b.synthesize f = .ok t := by
  have hparts : (presetDecl name value format first).checkParts = .ok () := rfl
  have hsamples : (presetDecl name value format first).samples g = .ok ([.ofInt 0], true) := rfl
  have hresolve : (presetDecl name value format first).resolve config g [.ofInt 0] =
      .ok (f, none) := by
    simp [Decl.resolve, presetDecl, FormatNote.resolve, h]
  -- such a declaration is built by binding zero to the format of the preset, and by nothing else
  have hbuild : (presetDecl name value format first).build config b g =
      (b.bind f (.ofInt 0) >>= fun v => pure ⟨"X", f, [v], true, none, some first⟩) := by
    rw [Decl.build, hparts, Binder.Binding.of_ok_bind, hsamples, Binder.Binding.of_ok_bind]
    dsimp only [List.isEmpty_cons]
    rw [if_neg Bool.false_ne_true, hresolve]
    show (b.bindAll f [.ofInt 0] >>= fun vs =>
      pure (⟨"X", f, vs, true, none, some first⟩ : Constant)) = _
    simp only [Binder.bindAll, List.mapM_cons, List.mapM_nil, bind_assoc, pure_bind]
  rw [← exists_bind_zero_iff, hbuild, Binder.Binding.runOn_bind]
  rcases (b.bind f (.ofInt 0)).runOn {} with ⟨e | v, cache⟩
  · simp
  · simp

/-- A program of one declaration is compiled without a report if the declaration is built, and
then it has that constant alone. -/
theorem Program.exists_compile_iff {config : Config} {b : Binder} {source file : String} {p : Program}
    {d : Decl} (hparse : parse source file = .ok (p, [])) (hdecl : p.statements = [d])
    {Q : Constant → Prop} :
    (∃ built c, ((compile config b source file).runOn {}).1 = .ok built ∧ built.diagnostics = [] ∧
        built.graph.constants = [c] ∧ Q c) ↔
      ∃ c, ((d.build config b { name := p.name }).runOn {}).1 = .ok c ∧ Q c := by
  have hbuild : p.build config b = [d].foldlM (addDecl config b) { graph := { name := p.name } } := by
    rw [build, hdecl]
  constructor
  · rintro ⟨built, c, hcompile, hclean, hconstants, hc⟩
    obtain ⟨p', found, built', hparse', hrun, rfl⟩ := compile_eq_ok.mp hcompile
    rw [hparse] at hparse'
    cases hparse'
    rw [hbuild] at hrun
    -- a declaration is either made into a constant or reported, and there is no report
    obtain ⟨row, hrow, hfates, rfl⟩ := fates_of_run [d] _ built' {} .refl hrun
    obtain ⟨⟨d, fate⟩, rfl, rfl⟩ := List.map_eq_singleton_iff.mp hrow
    cases hfates with
    | made h _ =>
      cases hconstants
      cases h with
      | made _ h => exact ⟨c, h, hc⟩
    | reported h _ => cases hclean
  · rintro ⟨c, h, hc⟩
    have hfates : Fates config b {} { name := p.name } [(d, .made c)] :=
      .made (.made (by simp [Graph.contains]) h) .nil
    have hrun : ((p.build config b).runOn {}).1 = .ok _ :=
      hbuild ▸ hfates.run { graph := { name := p.name } } rfl .refl
    exact ⟨_, c, compile_eq_ok.mpr ⟨p, [], _, hparse, hrun, rfl⟩, rfl, rfl, hc⟩

namespace CommandLine

/-- A preset that can be used: the program that declares a constant of it is compiled without
any report, and its constant is of the format. -/
def Usable (config : Config) (file : String) (e : Datum × Format) : Prop :=
  ∃ name built c, e.1 = .text name ∧
    ((Program.compile config (config.binder 0) (presetUse name) file).runOn {}).1 = .ok built ∧
    built.diagnostics = [] ∧ built.graph.constants = [c] ∧ c.name = "X" ∧ c.format = e.2

/-- A word that is not reserved is no keyword. -/
theorem ofWord_of_not_reserved {s : String} (h : s ∉ Registry.reservedNames) :
    TokenKind.ofWord s = .name := by
  simp only [Registry.reservedNames, List.mem_cons, List.not_mem_nil, or_false, not_or] at h
  obtain ⟨hconst, hprogram, hwithin, hsfix, hufix⟩ := h
  rw [TokenKind.ofWord, if_neg hprogram, if_neg hconst, if_neg hwithin, if_neg hsfix, if_neg hufix]

/-- A text that matches a pattern is allowed by it, or is so with its last line break left out. -/
theorem accepts_or_line_break {p : Pattern} {s : String} (h : p.matchesText s) :
    p.accepts s.toList ∨ ∃ t, s = t ++ "\n" ∧ p.accepts t.toList := by
  simp only [Pattern.matchesText, Bool.or_eq_true, Bool.and_eq_true, decide_eq_true_eq] at h
  refine h.imp_right fun hbreak => ⟨.ofList s.toList.dropLast, ?_, ?_⟩
  · rw [← String.toList_inj, String.toList_append, String.toList_ofList]
    exact (List.dropLast_append_getLast? '\n' hbreak.1).symm
  · rw [String.toList_ofList]
    exact hbreak.2

section Loaded

variable {source : String} {d : Datum} {config : Config} (hd : d.Distinct)
  (hload : Registry.load source d = .ok config) {name : String} {f : Format}
  (hmem : (.text name, f) ∈ config.formats) (file : String)

include hd hload hmem

/-- A preset whose name the pattern allows can be used if its format has a value type. -/
theorem usable_iff_of_accepts (hname : Pattern.name.accepts name.toList) :
    Usable config file (.text name, f) ↔ ∃ t, (config.binder 0).synthesize f = .ok t := by
  have hfree := (((Registry.loaded_of_load hload) _ hmem).name name rfl).2
  obtain ⟨p, value, format, first, hparse, hdecl⟩ :=
    parse_presetUse hname (ofWord_of_not_reserved hfree) file
  -- another preset of the same name would be found in its place if keys could be equal
  have hpreset := Registry.preset_of_mem hd hload hmem
  rw [← exists_build_presetDecl_iff hpreset (config.binder 0) { name := p.name } value format first]
  constructor
  · rintro ⟨name', built, c, hname', hcompile, hclean, hconstants, -, hformat⟩
    cases hname'
    exact (Program.exists_compile_iff hparse hdecl).mp
      ⟨built, c, hcompile, hclean, hconstants, hformat⟩
  · rintro ⟨c, hc, hformat⟩
    have hnamed := (Decl.ensures_named config (config.binder 0) _ _ {} trivial).2 c hc
    obtain ⟨built, c, hcompile, hclean, hconstants, hc⟩ :=
      (Program.exists_compile_iff (Q := fun c => c.name = "X" ∧ c.format = f) hparse hdecl).mpr
        ⟨c, hc, hnamed.1, hformat⟩
    exact ⟨name, built, c, rfl, hcompile, hclean, hconstants, hc⟩

omit hmem in
/-- Which presets of a registry can be used: those with a name that can stand in a program and a
format that doubles and messages can express. The widths are within the limit in any case. -/
theorem usable_iff_of_load {e : Datum × Format} (he : e ∈ config.formats) :
    Usable config file e ↔ ∃ s, e.1 = .text s ∧ Pattern.name.accepts s.toList ∧
      e.2.integerBits < 1024 ∧ Decimal.Short e.2.fractionalBits := by
  have hloaded := Registry.loaded_of_load hload e he
  -- the limit was checked when the registry was loaded, so two of the conditions for a type are
  -- left
  have hmakes : (∃ t, (config.binder 0).synthesize e.2 = .ok t) ↔
      e.2.integerBits < 1024 ∧ Decimal.Short e.2.fractionalBits := by
    rw [Binder.exists_synthesize_iff]
    constructor
    · rintro ⟨-, hbounded, hwritable⟩
      exact ⟨hbounded, hwritable.2⟩
    · rintro ⟨hbounded, hshort⟩
      exact ⟨hloaded.fits, hbounded, Decimal.lt_writeLimit (hbounded.trans (by decide)), hshort⟩
  obtain ⟨key, f⟩ := e
  constructor
  · intro husable
    obtain ⟨name, built, c, rfl, hcompile, hclean, hrest⟩ := id husable
    rcases accepts_or_line_break (hloaded.name name rfl).1 with hname | ⟨t, rfl, hname⟩
    · exact ⟨name, rfl, hname,
        hmakes.mp ((usable_iff_of_accepts hd hload he file hname).mp husable)⟩
    · -- the line break parts the declaration, which is reported
      obtain ⟨p, found, hparse, hfound⟩ := parse_presetUse_line_break hname file
      obtain ⟨p', found', built', hparse', -, rfl⟩ := Program.compile_eq_ok.mp hcompile
      rw [hparse] at hparse'
      cases hparse'
      exact absurd (List.append_eq_nil_iff.mp hclean).1 hfound
  · rintro ⟨s, rfl, hname, hformat⟩
    exact (usable_iff_of_accepts hd hload he file hname).mpr (hmakes.mpr hformat)

end Loaded

/-! ## Configurations of the command line -/

theorem load_standard (file : String) : Registry.load file Registry.standard = .ok .standard := by
  have hproblems : Registry.problems Registry.standard = .ok [] := by
    apply Registry.problems_registry (eq_ok_of_toOption (by decide +kernel))
      (eq_ok_of_toOption (by decide +kernel))
    · simp only [Config.standard, List.map_cons, List.map_nil, List.forall_mem_cons,
        List.not_mem_nil, false_imp_iff, implies_true, and_true]
      cbv
    · simp only [Config.standard, List.map_cons, List.map_nil, List.forall_mem_cons,
        List.not_mem_nil, false_imp_iff, implies_true, and_true]
      cbv
  exact Registry.load_eq_ok.mpr ⟨hproblems, Config.standard.formats, by cbv, by cbv⟩

/-- A configuration is that of a registry whose keys differ. -/
theorem exists_load_of_configOf {look : String → Found String} {path : Option String}
    {config : Config} (h : configOf look path = .ok config) :
    ∃ source d, d.Distinct ∧ Registry.load source d = .ok config := by
  cases path with
  | none =>
    -- without a path it is the standard registry
    cases h
    refine ⟨"formats.yaml", Registry.standard, ?_, load_standard _⟩
    refine Registry.distinct_registry trivial trivial (Datum.distinct_map.mpr ⟨?_, ?_⟩)
    · simp [Config.standard, Datum.eq]
    · simp [Config.standard, Registry.distinct_ofFormat]
  | some path =>
    rw [configOf] at h
    cases hfound : look path with
    | file content =>
      rw [hfound, Found.map] at h
      cases hread : Yaml.read content with
      | ok d =>
        rw [hread] at h
        exact ⟨path, d, Yaml.distinct_read hread, h⟩
      | error e =>
        rw [hread] at h
        cases e <;> cases h
    | _ =>
      rw [hfound] at h
      cases h

/-- **Usable presets.** A preset of a configuration can be used in a program just if its name is
a text that the pattern for names allows without a line break at its end, its values are within
the range of doubles, and its fractional width is not too long to be written. -/
theorem usable_iff {look : String → Found String} {path : Option String} {config : Config}
    (hconfig : configOf look path = .ok config) (file : String) {e : Datum × Format}
    (he : e ∈ config.formats) :
    Usable config file e ↔ ∃ s, e.1 = .text s ∧ Pattern.name.accepts s.toList ∧
      e.2.integerBits < 1024 ∧ Decimal.Short e.2.fractionalBits := by
  obtain ⟨source, d, hd, hload⟩ := exists_load_of_configOf hconfig
  exact usable_iff_of_load hd hload file he

/-- The standard preset `q7` can be used. -/
theorem usable_iff_q7 : Usable .standard "p.fix" (.text "q7", ⟨true, 0, 7⟩) := by
  have hconfig : configOf (fun _ => .missing) none = .ok .standard := rfl
  exact (usable_iff hconfig "p.fix" (by simp [Config.standard])).mpr
    ⟨"q7", rfl, by decide, by decide, Decimal.lt_writeLimit (by decide)⟩

/-- A preset of 1024 bits passes the limit of 2048 but is beyond the range of doubles. -/
theorem not_forall_usable :
    ¬ ∀ (source : String) (d : Datum) (config : Config) (file : String) (e : Datum × Format),
      d.Distinct → Registry.load source d = .ok config → e ∈ config.formats →
      Usable config file e := by
  intro hall
  -- the widths are within the limit, and the values beyond all doubles
  let big : Format := ⟨false, 1024, 0⟩
  let config := { Registry.limits (.int 52) (.int 2048) with formats := [(.text "big", big)] }
  let d := Registry.ofConfig config
  have hproblems : Registry.problems d = .ok [] := by
    apply Registry.problems_registry (eq_ok_of_toOption (by decide +kernel))
      (eq_ok_of_toOption (by decide +kernel))
    · exact List.forall_mem_singleton.mpr (by cbv)
    · exact List.forall_mem_singleton.mpr (by cbv)
  have hload : Registry.load "r.yaml" d = .ok config :=
    Registry.load_eq_ok.mpr ⟨hproblems, [(.text "big", big)], by cbv, by cbv⟩
  have hdistinct : d.Distinct :=
    Registry.distinct_registry trivial trivial (Datum.distinct_map.mpr
      ⟨List.pairwise_singleton _ _, List.forall_mem_singleton.mpr (Registry.distinct_ofFormat big)⟩)
  have hmem : (.text "big", big) ∈ config.formats := List.mem_singleton_self _
  obtain ⟨-, -, -, hbounded, -⟩ := (usable_iff_of_load hdistinct hload "p.fix" hmem).mp
    (hall _ d _ "p.fix" _ hdistinct hload hmem)
  exact absurd hbounded (by decide)

end CommandLine

end BinaryPoint
