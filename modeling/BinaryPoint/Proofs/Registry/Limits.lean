import BinaryPoint.Proofs.Outcome
import BinaryPoint.Registry.Basic
import Mathlib

/-! # The limits of a loaded registry

A registry is loaded only if its document passes the rules, and so the rules tell what its
limits can be. An integer may also be given as a double without a fraction, which the rules
admit and which stays a double.

* `Rule.all_eq_nil` and the lemmas beside it: when a rule finds nothing wrong;
* `Registry.load_eq_ok`: a registry is loaded if nothing is wrong with it and each of its formats
  can be made;
* `Registry.bounded_of_load`: the limits of a configuration that comes from a registry.
-/

namespace BinaryPoint

/-! ## Documents that pass -/

/-- A row of checks finds nothing wrong just if each of them finds nothing. -/
theorem flatten_mapM_eq_nil {α β ε : Type} {f : α → Except ε (List β)} {xs : List α} :
    (xs.mapM f >>= fun found => .ok found.flatten) = .ok [] ↔ ∀ x ∈ xs, f x = .ok [] := by
  simp only [bind_eq_ok, Except.ok.injEq, mapM_eq_ok]
  constructor
  · rintro ⟨found, hfound, hnone⟩
    induction hfound with
    | nil => exact List.forall_mem_nil _
    | cons hrun _ ih =>
      obtain ⟨hfirst, hothers⟩ := List.append_eq_nil_iff.mp hnone
      exact List.forall_mem_cons.mpr ⟨hfirst ▸ hrun, ih hothers⟩
  · intro h
    refine ⟨xs.map fun _ => [], ?_, by simp⟩
    rw [List.forall₂_map_right_iff, List.forall₂_same]
    exact h

namespace Rule

/-- A document passes some rules together just if it passes each of them. -/
theorem all_eq_nil {rules : List Rule} {v : Datum} :
    all rules v = .ok [] ↔ ∀ r ∈ rules, r v = .ok [] :=
  flatten_mapM_eq_nil

theorem ofType_eq_nil {t : DataType} {v : Datum} : ofType t v = .ok [] ↔ t.admits v := by
  rw [ofType]
  split
  · next h => simp [h]
  · next h => simp [h, here, bind_eq_ok]

/-- The integers of documents are integers, or doubles without a fraction. -/
theorem ofType_integer {v : Datum} (h : ofType .integer v = .ok []) :
    (∃ n, v = .int n) ∨ ∃ x, v = .real x := by
  rw [ofType_eq_nil] at h
  cases v with
  | int n => exact .inl ⟨n, rfl⟩
  | real x => exact .inr ⟨x, rfl⟩
  | _ => cases h

theorem atLeast_int {bound n : ℤ} (h : atLeast bound (.int n) = .ok []) : bound ≤ n := by
  rw [atLeast] at h
  split at h
  · simp [here, bind_eq_ok] at h
  · next hnot => exact not_lt.mp fun hlt => hnot (congrArg some (compare_lt_iff_lt.mpr hlt))

theorem atMost_int {bound n : ℤ} (h : atMost bound (.int n) = .ok []) : n ≤ bound := by
  rw [atMost] at h
  split at h
  · simp [here, bind_eq_ok] at h
  · next hnot => exact not_lt.mp fun hgt => hnot (congrArg some (compare_gt_iff_gt.mpr hgt))

/-- The entry of a mapping passes a rule if the mapping passes the rule for its entry. -/
theorem entry_eq_nil {key : String} {rule : Rule} {es : List (Datum × Datum)} :
    entry key rule (.map es) = .ok [] ↔
      ∀ v, Datum.lookup (.text key) es = some v → rule v = .ok [] := by
  rw [entry]
  cases Datum.lookup (.text key) es with
  | none => simp
  | some w => simp [bind_eq_ok, under]

/-- The required part of a document passes the rule for it. -/
theorem part_passes {keys : List String} {key : String} {rule : Rule} {v : Datum}
    (hobject : ofType .object v = .ok []) (hrequired : required keys v = .ok [])
    (hkey : key ∈ keys) (hentry : entry key rule v = .ok []) :
    rule (Registry.part key v) = .ok [] := by
  rw [ofType_eq_nil] at hobject
  cases v with
  | map es =>
    rw [required, Except.ok.injEq, List.flatMap_eq_nil_iff] at hrequired
    rw [Registry.part]
    cases hlookup : Datum.lookup (.text key) es with
    | none =>
      have hmissing := hrequired key hkey
      simp [hlookup, here] at hmissing
    | some w => exact entry_eq_nil.mp hentry w hlookup
  | _ => cases hobject

end Rule

/-! ## Limits -/

namespace Registry

open Rule

theorem limit_passes {key : String} {rule : Rule} {v : Datum}
    (h : limitRule key rule v = .ok []) : rule (part key v) = .ok [] := by
  have hall := all_eq_nil.mp h
  exact part_passes (hall _ (by simp)) (hall (.required [key]) (by simp)) (by simp)
    (hall _ (by simp))

/-- The limits of a document of the right shape pass their rules. -/
theorem limits_pass {d : Datum} (h : shape d = .ok []) :
    all [.ofType .integer, .atLeast 0, .atMost 1074] (maxFractionalBits d) = .ok [] ∧
      count 1 (maxTotalBits d) = .ok [] := by
  have hall := all_eq_nil.mp h
  have hpart : ∀ key rule, key ∈ ["version", "inference", "binding", "formats"] →
      entry key rule d = .ok [] → rule (part key d) = .ok [] := fun key rule =>
    part_passes (hall (.ofType .object) (by simp))
      (hall (.required ["version", "inference", "binding", "formats"]) (by simp))
  constructor
  · apply limit_passes
    apply hpart "inference" _ (by simp)
    exact hall _ (by simp)
  · apply limit_passes
    apply hpart "binding" _ (by simp)
    exact hall _ (by simp)

/-- A document without problems has the right shape. -/
theorem shape_of_problems {d : Datum} (h : problems d = .ok []) : shape d = .ok [] := by
  obtain ⟨found, hfound, hlines⟩ := bind_eq_ok.mp h
  cases found with
  | nil => exact hfound
  | cons p ps =>
    -- a problem of the shape is not lost on the way to the list of lines
    have hlength := congrArg List.length (Except.ok.inj hlines)
    simp [Problem.sorted] at hlength

/-- In a document without problems no preset has any. -/
theorem presetProblems_of_problems {d : Datum} (h : problems d = .ok []) :
    ∀ e ∈ presets d, presetProblems (maxTotalBits d) e = .ok [] := by
  rw [problems, shape_of_problems h, ok_bind] at h
  exact flatten_mapM_eq_nil.mp h

/-- A registry is loaded if nothing is wrong with it and each of its formats can be made. -/
theorem load_eq_ok {file : String} {d : Datum} {config : Config} :
    load file d = .ok config ↔ problems d = .ok [] ∧
      ∃ formats, (presets d).mapM presetFormat = .ok formats ∧
        config = ⟨maxFractionalBits d, maxTotalBits d, formats⟩ := by
  rw [load, bind_eq_ok]
  constructor
  · rintro ⟨found, hfound, h⟩
    cases found with
    | cons line lines => simp at h
    | nil =>
      obtain ⟨formats, hformats, hconfig⟩ := bind_eq_ok.mp (show _ >>= _ = Except.ok config from h)
      exact ⟨hfound, formats, hformats, (Except.ok.inj hconfig).symm⟩
  · rintro ⟨hfound, formats, hformats, rfl⟩
    refine ⟨[], hfound, ?_⟩
    show ((presets d).mapM presetFormat >>= _) = _
    rw [hformats]
    rfl

end Registry

/-- What the limits of a configuration from a registry can be. -/
structure Config.Bounded (c : Config) : Prop where
  fractional : (∃ n, c.maxFractionalBits = .int n ∧ 0 ≤ n ∧ n ≤ 1074) ∨
    ∃ x, c.maxFractionalBits = .real x
  total : (∃ n, c.maxTotalBits = .int n ∧ 1 ≤ n) ∨ ∃ x, c.maxTotalBits = .real x

/-- A registry that is loaded has limits in range; a double may stand for an integer. -/
theorem Registry.bounded_of_load {file : String} {d : Datum} {config : Config}
    (h : load file d = .ok config) : config.Bounded := by
  obtain ⟨hproblems, formats, -, rfl⟩ := load_eq_ok.mp h
  obtain ⟨hfractional, htotal⟩ := limits_pass (shape_of_problems hproblems)
  have hfractional := Rule.all_eq_nil.mp hfractional
  have htotal := Rule.all_eq_nil.mp htotal
  constructor
  · rcases Rule.ofType_integer (hfractional _ (by simp)) with ⟨n, hn⟩ | hreal
    · -- an integer has passed the rules for both ends of the range
      have hlow := hfractional (.atLeast 0) (by simp)
      have hhigh := hfractional (.atMost 1074) (by simp)
      rw [hn] at hlow hhigh
      exact .inl ⟨n, hn, Rule.atLeast_int hlow, Rule.atMost_int hhigh⟩
    · exact .inr hreal
  · rcases Rule.ofType_integer (htotal _ (by simp)) with ⟨n, hn⟩ | hreal
    · have hlow := htotal (.atLeast 1) (by simp)
      rw [hn] at hlow
      exact .inl ⟨n, hn, Rule.atLeast_int hlow⟩
    · exact .inr hreal

end BinaryPoint
