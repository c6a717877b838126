import BinaryPoint.Proofs.Format
import BinaryPoint.Proofs.Registry.Limits

/-! # The presets of a registry

What the rules say about named formats, and what is left to be found out when the formats are
made. The rules admit widths that are doubles without a fraction, and they look at a name only
if it is a text.

* `Registry.Preset`: what a named format holds in a registry of the right shape;
* `Registry.exists_presetFormat_iff`: its format can be made just if its widths are integers;
* `Registry.problems_registry`, `Registry.load_limits`: the other way round, limits and presets
  that pass their rules make a registry with which nothing is wrong.
-/

namespace BinaryPoint

namespace Rule

theorem keys_eq_nil {r : Rule} {es : List (Datum × Datum)} :
    keys r (.map es) = .ok [] ↔ ∀ e ∈ es, r e.1 = .ok [] :=
  flatten_mapM_eq_nil

/-- The values of a mapping pass a rule just if nothing is found in the mapping: what is found
is not lost when it is told under which key. -/
theorem values_eq_nil {r : Rule} {es : List (Datum × Datum)} :
    values r (.map es) = .ok [] ↔ ∀ e ∈ es, r e.2 = .ok [] := by
  rw [values, flatten_mapM_eq_nil]
  refine forall₂_congr fun e _ => ?_
  cases hrun : r e.2 with
  | error f => simp
  | ok found =>
    cases found with
    | nil => simp; rfl
    | cons p ps => simp [bind_eq_ok, under, pure, Except.pure]

theorem matching_text {p : Pattern} {s : String} (h : matching p (.text s) = .ok []) :
    p.matchesText s := by
  rw [matching, Except.ok.injEq] at h
  by_contra hnot
  rw [if_neg hnot] at h
  cases h

end Rule

namespace Registry

/-! ## What a preset holds -/

/-- A width as the rules let it pass: an integer that is not negative, or a double. -/
def Width (v : Datum) : Prop := (∃ n : ℕ, v = .int n) ∨ ∃ x, v = .real x

/-- An entry among the named formats of a registry of the right shape. -/
structure Preset (e : Datum × Datum) : Prop where
  name : ∀ s, e.1 = .text s → Pattern.name.matchesText s
  signed : ∃ b, part "signed" e.2 = .bool b
  integerBits : Width (part "integer_bits" e.2)
  fractionalBits : Width (part "fractional_bits" e.2)

theorem width_of_count {least : ℤ} {v : Datum} (hleast : 0 ≤ least) (h : count least v = .ok []) :
    Width v := by
  have hall := Rule.all_eq_nil.mp h
  rcases Rule.ofType_integer (hall _ (by simp)) with ⟨n, rfl⟩ | hreal
  · have hn := Rule.atLeast_int (hall (.atLeast least) (by simp))
    exact .inl ⟨n.toNat, by rw [Int.toNat_of_nonneg (hleast.trans hn)]⟩
  · exact .inr hreal

theorem bool_of_ofType {v : Datum} (h : Rule.ofType .boolean v = .ok []) : ∃ b, v = .bool b := by
  rw [Rule.ofType_eq_nil] at h
  cases v with
  | bool b => exact ⟨b, rfl⟩
  | _ => cases h

theorem Preset.of_rules {e : Datum × Datum} (hname : Rule.matching .name e.1 = .ok [])
    (h : presetRule e.2 = .ok []) : Preset e := by
  have hall := Rule.all_eq_nil.mp h
  have hpart : ∀ key rule, key ∈ ["signed", "integer_bits", "fractional_bits"] →
      Rule.entry key rule e.2 = .ok [] → rule (part key e.2) = .ok [] := fun key rule =>
    Rule.part_passes (hall (.ofType .object) (by simp))
      (hall (.required ["signed", "integer_bits", "fractional_bits"]) (by simp))
  refine ⟨fun s hs => Rule.matching_text (hs ▸ hname), ?_, ?_, ?_⟩
  · exact bool_of_ofType (hpart "signed" _ (by simp) (hall _ (by simp)))
  · exact width_of_count le_rfl (hpart "integer_bits" _ (by simp) (hall _ (by simp)))
  · exact width_of_count le_rfl (hpart "fractional_bits" _ (by simp) (hall _ (by simp)))

/-- All named formats of a registry of the right shape are of the right shape. -/
theorem presets_of_shape {d : Datum} (h : shape d = .ok []) : ∀ e ∈ presets d, Preset e := by
  have hall := Rule.all_eq_nil.mp h
  -- the part of the document with the presets has passed the rule for it
  have hpart : Rule.all [.ofType .object, .keys (.matching .name), .values presetRule]
      (part "formats" d) = .ok [] :=
    Rule.part_passes (hall (.ofType .object) (by simp))
      (hall (.required ["version", "inference", "binding", "formats"]) (by simp)) (by simp)
      (hall _ (by simp))
  have hformats := Rule.all_eq_nil.mp hpart
  have hkeys := hformats (.keys (.matching .name)) (by simp)
  have hvalues := hformats (.values presetRule) (by simp)
  rw [presets]
  split
  · next es hes =>
    rw [hes, Rule.keys_eq_nil] at hkeys
    rw [hes, Rule.values_eq_nil] at hvalues
    exact fun e he => .of_rules (hkeys e he) (hvalues e he)
  · exact List.forall_mem_nil _

/-! ## What becomes of it -/

/-- An integer width: the only form in which a format takes it. -/
def Exact (v : Datum) : Prop := ∃ n : ℕ, v = .int n

/-- The format of a preset has the sign and the widths that the preset holds. -/
theorem presetFormat_eq_ok {e : Datum × Datum} {p : Datum × Format} :
    presetFormat e = .ok p ↔ p.1 = e.1 ∧ part "signed" e.2 = .bool p.2.signed ∧
      part "integer_bits" e.2 = .int p.2.integerBits ∧
      part "fractional_bits" e.2 = .int p.2.fractionalBits := by
  simp only [presetFormat, bind_eq_ok, Format.ofParts_eq_ok, Except.ok.injEq]
  constructor
  · rintro ⟨f, hparts, rfl⟩
    exact ⟨rfl, hparts⟩
  · rintro ⟨hname, hparts⟩
    exact ⟨p.2, hparts, Prod.ext hname.symm rfl⟩

/-- The format of a preset can be made just if its widths are integers. -/
theorem exists_presetFormat_iff {e : Datum × Datum} (h : Preset e) :
    (∃ p, presetFormat e = .ok p) ↔
      Exact (part "integer_bits" e.2) ∧ Exact (part "fractional_bits" e.2) := by
  obtain ⟨b, hb⟩ := h.signed
  simp only [presetFormat_eq_ok, hb]
  constructor
  · rintro ⟨p, -, -, hinteger, hfractional⟩
    exact ⟨⟨_, hinteger⟩, _, hfractional⟩
  · rintro ⟨⟨i, hi⟩, r, hr⟩
    exact ⟨(e.1, ⟨b, i, r⟩), rfl, rfl, hi, hr⟩

/-- All formats can be made just if all widths are integers. -/
theorem exists_formats_iff {es : List (Datum × Datum)} (h : ∀ e ∈ es, Preset e) :
    (∃ formats, es.mapM presetFormat = .ok formats) ↔
      ∀ e ∈ es, Exact (part "integer_bits" e.2) ∧ Exact (part "fractional_bits" e.2) := by
  constructor
  · rintro ⟨formats, hformats⟩ e he
    obtain ⟨p, -, hp⟩ := exists_of_mapM hformats he
    exact (exists_presetFormat_iff (h e he)).mp ⟨p, hp⟩
  · intro hexact
    exact exists_mapM fun e he => (exists_presetFormat_iff (h e he)).mpr (hexact e he)

/-! ## Registries put together -/

/-- A registry of the given limits and presets. -/
def registry (fractional total : Datum) (es : List (Datum × Datum)) : Datum := .map
  [ (.text "version", .text "1.0"),
    (.text "inference", .map [(.text "max_fractional_bits", fractional)]),
    (.text "binding", .map [(.text "max_total_bits", total)]),
    (.text "formats", .map es) ]

/-- A mapping with a limit and nothing else passes the rule for it as the limit does. -/
theorem limitRule_singleton {key : String} {rule : Rule} {v : Datum} (h : rule v = .ok []) :
    limitRule key rule (.map [(.text key, v)]) = .ok [] := by
  have hlookup : Datum.lookup (.text key) [(.text key, v)] = some v := by
    simp [Datum.lookup, Datum.eq]
  refine Rule.all_eq_nil.mpr ?_
  simp only [List.forall_mem_cons, List.not_mem_nil, false_imp_iff, implies_true, and_true]
  refine ⟨rfl, ?_, ?_, Rule.entry_eq_nil.mpr ?_⟩
  · simp [Rule.required, hlookup]
  · simp [Rule.only, Rule.extras, Datum.eq]
  · intro w hw
    cases hlookup.symm.trans hw
    exact h

theorem presets_registry (v w : Datum) (es : List (Datum × Datum)) :
    presets (registry v w es) = es := by cbv

section Registry

variable {v w : Datum} {es : List (Datum × Datum)}
  (hv : Rule.all [.ofType .integer, .atLeast 0, .atMost 1074] v = .ok [])
  (hw : count 1 w = .ok [])

include hv hw

/-- Limits and presets that pass their rules make a registry of the right shape. -/
theorem shape_registry
    (hes : ∀ e ∈ es, Rule.matching .name e.1 = .ok [] ∧ presetRule e.2 = .ok []) :
    shape (registry v w es) = .ok [] := by
  -- what stands under a key passes the rule for the key
  have hpart : ∀ key u rule, part key (registry v w es) = u → rule u = .ok [] →
      Rule.entry key rule (registry v w es) = .ok [] := by
    rintro key _ rule rfl hrule
    refine Rule.entry_eq_nil.mpr fun u hu => ?_
    have hpart : part key (registry v w es) = u := congrArg (·.getD .null) hu
    rwa [hpart] at hrule
  refine Rule.all_eq_nil.mpr ?_
  simp only [List.forall_mem_cons, List.not_mem_nil, false_imp_iff, implies_true, and_true]
  refine ⟨rfl, by cbv, by cbv, by cbv, ?_, ?_, ?_⟩
  · exact hpart "inference" _ _ (by cbv) (limitRule_singleton hv)
  · exact hpart "binding" _ _ (by cbv) (limitRule_singleton hw)
  · refine hpart "formats" (.map es) _ (by cbv) (Rule.all_eq_nil.mpr ?_)
    simp only [List.forall_mem_cons, List.not_mem_nil, false_imp_iff, implies_true, and_true]
    exact ⟨rfl, Rule.keys_eq_nil.mpr fun e he => (hes e he).1,
      Rule.values_eq_nil.mpr fun e he => (hes e he).2⟩

/-- Nothing is wrong with the registry if its presets also fit the limit. -/
theorem problems_registry
    (hes : ∀ e ∈ es, Rule.matching .name e.1 = .ok [] ∧ presetRule e.2 = .ok [])
    (hfits : ∀ e ∈ es, presetProblems w e = .ok []) : problems (registry v w es) = .ok [] := by
  have htotal : maxTotalBits (registry v w es) = w := by cbv
  rw [problems, shape_registry hv hw hes, ok_bind]
  dsimp only
  rw [presets_registry, htotal]
  exact flatten_mapM_eq_nil.mpr hfits

end Registry

/-- The limits of a registry without presets. -/
def limits (fractional total : Datum) : Config :=
  { maxFractionalBits := fractional, maxTotalBits := total }

/-- Limits that pass their rules are loaded as they are, a double without a fraction too. -/
theorem load_limits {v w : Datum}
    (hv : Rule.all [.ofType .integer, .atLeast 0, .atMost 1074] v = .ok [])
    (hw : count 1 w = .ok []) (file : String) :
    load file (ofConfig (limits v w)) = .ok (limits v w) := by
  have hproblems : problems (ofConfig (limits v w)) = .ok [] :=
    problems_registry hv hw (List.forall_mem_nil _) (List.forall_mem_nil _)
  have hpresets : presets (ofConfig (limits v w)) = [] := presets_registry v w []
  have hfractional : maxFractionalBits (ofConfig (limits v w)) = v := by cbv
  have htotal : maxTotalBits (ofConfig (limits v w)) = w := by cbv
  refine load_eq_ok.mpr ⟨hproblems, [], ?_, ?_⟩
  · rw [hpresets]
    rfl
  · rw [hfractional, htotal]
    rfl

end Registry

end BinaryPoint
