import BinaryPoint.CommandLine.Run
import BinaryPoint.Proofs.Registry.Wording
import BinaryPoint.Proofs.Sorted

/-! # Checking a registry and loading it

Both commands go by the same list of problems. After that the check sorts the presets and
writes their names and widths, while loading makes their formats. What the rules let pass need
not suit both: a width that is a double is written but makes no format, and a name that is no
text goes into a configuration but not into a table.

* `exists_lines_iff`: when the presets can be written;
* `agree_iff`: check and loading agree on a registry just if it has problems, or suits both;
* `not_forall_agree`: they disagree on a registry with a width of `8.0`.
-/

namespace BinaryPoint.CommandLine

open Decimal (Short)
open Registry (Preset part presets)

/-! ## The presets on lines -/

/-- Only texts are ordered with texts. -/
theorem text_iff_of_compare {c : Comparison} {a b : Datum} {r : Bool}
    (h : a.compare c b = .ok r) : (∃ s, a = .text s) ↔ ∃ s, b = .text s := by
  cases a <;> cases b <;> simp [Datum.compare, Datum.number?] at h ⊢

/-- Names that can be written side by side: all of them texts, or all of them days. -/
def Uniform (names : List Datum) : Prop :=
  (∀ v ∈ names, ∃ s, v = .text s) ∨ ∀ v ∈ names, ∃ y m d, v = .date y m d

theorem exists_nameColumn_iff {v : Datum} :
    (∃ s, nameColumn v = .ok s) ↔ (∃ s, v = .text s) ∨ ∃ y m d, v = .date y m d := by
  cases v <;> simp [nameColumn]

/-- Names are sorted and written just if they are all texts, or all days. -/
theorem uniform_iff {es : List (Datum × Datum)} :
    Uniform (es.map (·.1)) ↔
      (∃ sorted, Sorted.sortBy (fun a b => a.1.compare .less b.1) es = .ok sorted) ∧
        ∀ e ∈ es, ∃ s, nameColumn e.1 = .ok s := by
  simp only [Uniform, List.forall_mem_map, exists_nameColumn_iff]
  constructor
  · rintro (htexts | hdates)
    · refine ⟨Sorted.exists_sortBy ?_ htexts, fun e he => .inl (htexts e he)⟩
      rintro a b ⟨s, hs⟩ ⟨t, ht⟩
      exact ⟨_, by rw [hs, ht, Datum.compare]⟩
    · refine ⟨Sorted.exists_sortBy ?_ hdates, fun e he => .inr (hdates e he)⟩
      rintro a b ⟨y, m, d, ha⟩ ⟨y', m', d', hb⟩
      exact ⟨_, by rw [ha, hb, Datum.compare]⟩
  · rintro ⟨⟨sorted, hsorted⟩, hnames⟩
    -- a text is never compared with anything else
    rcases Sorted.uniform_of_sortBy (p := fun e => ∃ s, e.1 = .text s)
      (fun a b c hc => text_iff_of_compare hc) hsorted with htexts | hnone
    · exact .inl htexts
    · exact .inr fun e he => (hnames e he).resolve_left (hnone e he)

theorem exists_plain_iff {v : Datum} (h : Registry.Width v) :
    (∃ s, Rule.plain v = .ok s) ↔ v.Within Decimal.writeLimit := by
  refine ⟨?_, Rule.exists_plain⟩
  rintro ⟨s, hs⟩
  rcases h with ⟨n, rfl⟩ | ⟨x, rfl⟩
  · rw [Datum.within_int]
    rw [Rule.plain, Datum.plain?_int] at hs
    refine Decimal.exists_write?_iff.mp ⟨s, ?_⟩
    split at hs
    · next t ht => rw [ht, Except.ok.inj hs]
    · cases hs
  · exact List.forall_mem_nil _

/-- The widths of a preset are short enough to be written. -/
def Written (preset : Datum) : Prop :=
  (part "integer_bits" preset).Within Decimal.writeLimit ∧
    (part "fractional_bits" preset).Within Decimal.writeLimit

theorem exists_presetLine_iff {e : Datum × Datum} (h : Preset e) :
    (∃ s, presetLine e = .ok s) ↔ (∃ s, nameColumn e.1 = .ok s) ∧ Written e.2 := by
  rw [Written, ← exists_plain_iff h.integerBits, ← exists_plain_iff h.fractionalBits, presetLine]
  simp only [bind_eq_ok, Except.ok.injEq]
  constructor
  · rintro ⟨-, name, hname, i, hi, f, hf, -⟩
    exact ⟨⟨name, hname⟩, ⟨i, hi⟩, f, hf⟩
  · rintro ⟨⟨name, hname⟩, ⟨i, hi⟩, f, hf⟩
    exact ⟨_, name, hname, i, hi, f, hf, rfl⟩

/-- The last line that a check writes about a registry without problems. -/
def Approves (o : Output) : Prop := ∃ lines, o.out = joinLines (lines ++ ["✓ Registry valid"])

/-- A registry without problems is approved if its presets can be written. -/
theorem checkDocument_of_passed {path : String} {d : Datum} (h : Registry.problems d = .ok []) :
    (∃ o, checkDocument path d = .ok o) ↔
      Uniform ((presets d).map (·.1)) ∧ ∀ e ∈ presets d, Written e.2 := by
  have hpresets := Registry.presets_of_shape (Registry.shape_of_problems h)
  rw [checkDocument, h, ok_bind, uniform_iff]
  dsimp only
  simp only [bind_eq_ok, Except.ok.injEq]
  constructor
  · rintro ⟨o, sorted, hsorted, lines, hlines, -⟩
    -- the sorted presets are the presets in another order, and each has its line
    have hperm := Sorted.sortBy_perm hsorted
    have hwritten : ∀ e ∈ presets d, (∃ s, nameColumn e.1 = .ok s) ∧ Written e.2 := by
      intro e he
      obtain ⟨line, -, hline⟩ := exists_of_mapM hlines (hperm.mem_iff.mpr he)
      exact (exists_presetLine_iff (hpresets e he)).mp ⟨line, hline⟩
    exact ⟨⟨⟨sorted, hsorted⟩, fun e he => (hwritten e he).1⟩, fun e he => (hwritten e he).2⟩
  · rintro ⟨⟨⟨sorted, hsorted⟩, hnames⟩, hwritten⟩
    have hperm := Sorted.sortBy_perm hsorted
    -- conversely every preset that can be written has a line wherever it stands
    have hline : ∀ e ∈ sorted, ∃ line, presetLine e = .ok line := by
      intro e he
      have hmem := hperm.mem_iff.mp he
      exact (exists_presetLine_iff (hpresets e hmem)).mpr ⟨hnames e hmem, hwritten e hmem⟩
    obtain ⟨lines, hlines⟩ := exists_mapM hline
    exact ⟨_, sorted, hsorted, lines, hlines, rfl⟩

theorem approves_of_checkDocument {path : String} {d : Datum} {o : Output}
    (hproblems : Registry.problems d = .ok []) (h : checkDocument path d = .ok o) :
    Approves o ∧ o.code = 0 := by
  rw [checkDocument, hproblems, ok_bind] at h
  obtain ⟨sorted, -, h⟩ := bind_eq_ok.mp h
  obtain ⟨lines, -, h⟩ := bind_eq_ok.mp h
  cases h
  exact ⟨⟨_, rfl⟩, rfl⟩

/-! ## Both commands -/

/-- The check approves of a registry that is loaded, and it reports a registry that is refused
for what the file holds. -/
def Agree (path : String) (found : Found Registry.Reading) : Prop :=
  (∃ o config, checkFound path found = .ok o ∧ Approves o ∧ o.code = 0 ∧
    Registry.ofFile path found = .ok config) ∨
  ∃ o f, checkFound path found = .ok o ∧ o.code = 1 ∧
    Registry.ofFile path found = .error f ∧ f.kind = .config

/-- Presets that can be written and made into formats. -/
structure Suitable (es : List (Datum × Datum)) : Prop where
  names : Uniform (es.map (·.1))
  widths : ∀ e ∈ es, ∀ key ∈ ["integer_bits", "fractional_bits"],
    ∃ n : ℕ, part key e.2 = .int n ∧ Short n

theorem suitable_iff {es : List (Datum × Datum)} :
    Suitable es ↔ (Uniform (es.map (·.1)) ∧ ∀ e ∈ es, Written e.2) ∧
      ∀ e ∈ es, Registry.Exact (part "integer_bits" e.2) ∧
        Registry.Exact (part "fractional_bits" e.2) := by
  -- for one width, being written and being an exact integer come to one condition
  have hwidth : ∀ v : Datum, (∃ n : ℕ, v = .int n ∧ Short n) ↔
      v.Within Decimal.writeLimit ∧ Registry.Exact v := by
    intro v
    constructor
    · rintro ⟨n, rfl, hn⟩
      exact ⟨Datum.within_int.mpr hn, n, rfl⟩
    · rintro ⟨hwithin, n, rfl⟩
      exact ⟨n, rfl, Datum.within_int.mp hwithin⟩
  -- the same for both widths of a preset
  have hboth : ∀ e : Datum × Datum, (∀ key ∈ ["integer_bits", "fractional_bits"],
      ∃ n : ℕ, part key e.2 = .int n ∧ Short n) ↔
      Written e.2 ∧ Registry.Exact (part "integer_bits" e.2) ∧
        Registry.Exact (part "fractional_bits" e.2) := by
    intro e
    simp only [List.forall_mem_cons, List.not_mem_nil, false_imp_iff, implies_true, and_true,
      hwidth, Written]
    exact and_and_and_comm
  constructor
  · rintro ⟨hnames, hwidths⟩
    exact ⟨⟨hnames, fun e he => ((hboth e).mp (hwidths e he)).1⟩,
      fun e he => ((hboth e).mp (hwidths e he)).2⟩
  · rintro ⟨⟨hnames, hwritten⟩, hexact⟩
    exact ⟨hnames, fun e he => (hboth e).mpr ⟨hwritten e he, hexact e he⟩⟩

/-- A registry without problems is approved and loaded if its presets suit both commands, and
the commands disagree on it if not. -/
theorem agree_iff_of_passed {path : String} {d : Datum} (h : Registry.problems d = .ok []) :
    Agree path (.file (.ok d)) ↔ Suitable (presets d) := by
  -- the registry is loaded just if all widths are exact integers
  have hload : (∃ config, Registry.load path d = .ok config) ↔ ∀ e ∈ presets d,
      Registry.Exact (part "integer_bits" e.2) ∧ Registry.Exact (part "fractional_bits" e.2) := by
    rw [← Registry.exists_formats_iff (Registry.presets_of_shape (Registry.shape_of_problems h))]
    simp only [Registry.load_eq_ok, h, true_and]
    exact ⟨fun ⟨_, formats, hformats, _⟩ => ⟨formats, hformats⟩,
      fun ⟨formats, hformats⟩ => ⟨_, formats, hformats, rfl⟩⟩
  have hcheck : (∃ o, checkDocument path d = .ok o) ↔ _ := checkDocument_of_passed h
  rw [suitable_iff, ← hcheck, ← hload]
  constructor
  · rintro (⟨o, config, hcheck, -, -, hconfig⟩ | ⟨o, f, hcheck, hcode, -, -⟩)
    · exact ⟨⟨o, hcheck⟩, config, hconfig⟩
    · -- a check that approves does not exit with a failure
      have hzero := (approves_of_checkDocument h hcheck).2
      rw [hcode] at hzero
      cases hzero
  · rintro ⟨⟨o, hcheck⟩, config, hconfig⟩
    obtain ⟨happroves, hcode⟩ := approves_of_checkDocument h hcheck
    exact .inl ⟨o, config, hcheck, happroves, hcode, hconfig⟩

/-- Both commands refuse a registry with problems. -/
theorem agree_of_problems {path : String} {d : Datum} {p : String} {ps : List String}
    (h : Registry.problems d = .ok (p :: ps)) : Agree path (.file (.ok d)) := by
  obtain ⟨o, hcheck, hcode⟩ : ∃ o, checkDocument path d = .ok o ∧ o.code = 1 :=
    ⟨_, by rw [checkDocument, h, ok_bind], rfl⟩
  have hload : Registry.load path d = .error (.registryInvalid path (p :: ps)) := by
    rw [Registry.load, h]
    rfl
  exact .inr ⟨o, _, hcheck, hcode, hload, rfl⟩

/-- The commands agree on a registry just if it is checked at all, which it is if its integers
are of moderate size, and its presets suit both commands in case nothing is wrong with it. -/
theorem agree_iff (path : String) (d : Datum) :
    (Agree path (.file (.ok d)) ↔
      ∃ found, Registry.problems d = .ok found ∧ (found = [] → Suitable (presets d))) ∧
    (d.Within Datum.moderateLimit → ∃ found, Registry.problems d = .ok found) := by
  refine ⟨?_, Registry.exists_problems⟩
  cases hproblems : Registry.problems d with
  | error f =>
    have hcheck : checkFound path (.file (.ok d)) = .error f := by
      show checkDocument path d = _
      rw [checkDocument, hproblems, error_bind]
    simp [Agree, hcheck]
  | ok found =>
    cases found with
    | nil => simpa using agree_iff_of_passed hproblems
    | cons p ps => simpa using agree_of_problems hproblems

/-- A preset with the given fractional width. -/
def signedFraction (width : Datum) : Datum := .map
  [ (.text "signed", .bool true), (.text "integer_bits", .int 0), (.text "fractional_bits", width) ]

/-- A fractional width that passes its rule makes a preset that does. -/
theorem presetRule_signedFraction {v : Datum} (h : Registry.count 0 v = .ok []) :
    Registry.presetRule (signedFraction v) = .ok [] := by
  refine Rule.all_eq_nil.mpr ?_
  simp only [List.forall_mem_cons, List.not_mem_nil, false_imp_iff, implies_true, and_true]
  refine ⟨rfl, by cbv, by cbv, by cbv, by cbv, Rule.entry_eq_nil.mpr fun u hu => ?_, by cbv⟩
  have hwidth : some v = some u := by
    rw [← hu]
    cbv
  cases hwidth
  exact h

/-- A registry with such a preset. -/
def withSignedFraction (width : Datum) : Datum :=
  Registry.registry (.int 52) (.int 64) [(.text "a", signedFraction width)]

/-- Nothing is wrong with such a registry if there is room for the bits of its preset. -/
theorem problems_withSignedFraction {v w : Datum} (hcount : Registry.count 0 v = .ok [])
    (hsum : (Datum.int 1).add v = .ok w) (hfits : w.compare .greater (.int 64) = .ok false) :
    Registry.problems (withSignedFraction v) = .ok [] := by
  have hsigned : part "signed" (signedFraction v) = .bool true := by cbv
  have hinteger : part "integer_bits" (signedFraction v) = .int 0 := by cbv
  have hfractional : part "fractional_bits" (signedFraction v) = v := by cbv
  have hwidth : Registry.presetWidth (signedFraction v) = .ok w := by
    rw [Registry.presetWidth, hsigned, hinteger, hfractional]
    exact hsum
  apply Registry.problems_registry (eq_ok_of_toOption (by decide +kernel))
    (eq_ok_of_toOption (by decide +kernel))
  · rw [List.forall_mem_singleton]
    exact ⟨by cbv, presetRule_signedFraction hcount⟩
  · rw [List.forall_mem_singleton, Registry.presetProblems, hwidth, ok_bind, hfits]
    cbv

/-- The commands agree on a registry with a width of `8`. -/
theorem agree_iff_integer : Agree "formats.yaml" (.file (.ok (withSignedFraction (.int 8)))) := by
  have hpassed : Registry.problems (withSignedFraction (.int 8)) = .ok [] :=
    problems_withSignedFraction (eq_ok_of_toOption (by decide +kernel)) rfl
      (eq_ok_of_toOption (by decide +kernel))
  refine (agree_iff "formats.yaml" (withSignedFraction (.int 8))).1.mpr ⟨[], hpassed, fun _ => ?_⟩
  rw [withSignedFraction, Registry.presets_registry]
  refine ⟨.inl (List.forall_mem_singleton.mpr ⟨"a", rfl⟩), List.forall_mem_singleton.mpr ?_⟩
  simp only [List.forall_mem_cons, List.not_mem_nil, false_imp_iff, implies_true, and_true]
  exact ⟨⟨0, by cbv, by decide +kernel⟩, ⟨8, by cbv, by decide +kernel⟩⟩

/-- A fractional width of `8.0` passes the check but makes no format. -/
theorem not_forall_agree : ¬ ∀ path d, Agree path (.file (.ok d)) := by
  intro hall
  have hone : Datum.integerToReal 1 = .ok (.ofInt 1) :=
    eq_ok_of_toOption (by decide +kernel)
  -- the width of the preset can be added up, since the two parts are numbers
  have hsum : (Datum.int 1).add (.real (.ofInt 8)) = .ok (.real (.ofInt 1 + .ofInt 8)) := by
    show (Datum.integerToReal 1 >>= _) = _
    rw [hone]
    rfl
  -- so the check finds no problem
  have hpassed : Registry.problems (withSignedFraction (.real (.ofInt 8))) = .ok [] :=
    problems_withSignedFraction (eq_ok_of_toOption (by decide +kernel)) hsum
      (eq_ok_of_toOption (by decide +kernel))
  have hsuitable := (agree_iff_of_passed hpassed).mp (hall "formats.yaml" _)
  have hpreset : (.text "a", signedFraction (.real (.ofInt 8))) ∈
      presets (withSignedFraction (.real (.ofInt 8))) := by
    rw [withSignedFraction, Registry.presets_registry]
    exact List.mem_singleton_self _
  -- but a suitable preset has integers for widths
  obtain ⟨n, hn, -⟩ := hsuitable.widths _ hpreset "fractional_bits" (by simp)
  have hreal : part "fractional_bits" (signedFraction (.real (.ofInt 8))) = .real (.ofInt 8) := by
    generalize Datum.real (.ofInt 8) = v
    cbv
  rw [hreal] at hn
  cases hn

end BinaryPoint.CommandLine
