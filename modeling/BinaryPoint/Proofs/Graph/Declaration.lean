import BinaryPoint.Proofs.Fixed
import BinaryPoint.Proofs.Format
import BinaryPoint.Proofs.Graph.Evaluation
import BinaryPoint.Proofs.Inference.Threshold

/-! # What one declaration builds

A declaration denotes samples and a format; the constant that is built for it has
their roundings. Samples and formats come about in several ways, and rounding takes
one of two paths. All of them are read here as relations between a declaration and
the graph before it, and `ensures_build` puts them together: on a reachable cache
the constant of a declaration `Realizes` it, and is `Sound` itself, so that the
declarations after it can rely on it.
-/

namespace BinaryPoint

open Binder (Reached)
open Binder.Binding (Ensures)

/-! ## Sound constants -/

/-- What every constant of a graph offers to the declarations after it. -/
structure Constant.Sound (c : Constant) : Prop where
  nonempty : c.values ≠ []
  length_of_scalar : c.scalar → c.values.length = 1
  format_eq : ∀ v ∈ c.values, v.format = c.format
  representable : ∀ v ∈ c.values, Binary64.Representable v.toRat

/-- All constants of a graph are sound. -/
def Graph.Sound (g : Graph) : Prop := ∀ c ∈ g.constants, c.Sound

theorem Graph.Sound.find? {g : Graph} (hg : g.Sound) {name : String} {c : Constant}
    (h : g.find? name = some c) : c.Sound :=
  hg c (List.mem_of_find?_eq_some h)

theorem Graph.Sound.push {g : Graph} (hg : g.Sound) {c : Constant} (hc : c.Sound) :
    (g.push c).Sound := by
  intro c' hc'
  rcases List.mem_append.mp hc' with hmem | hmem
  · exact hg c' hmem
  · rw [List.mem_singleton] at hmem
    rwa [hmem]

/-- The doubles of a constant's values are the values. -/
theorem Constant.Sound.reals_exact {c : Constant} (hc : c.Sound) :
    List.Forall₂ (fun v x => x.isFinite ∧ x.toRat = v.toRat) c.values c.reals := by
  rw [reals, List.forall₂_map_right_iff, List.forall₂_same]
  intro v hv
  exact Fixed.toReal_exact (hc.representable v hv)

/-! ## Denotations -/

/-- The samples that a declaration stands for over a graph, and whether they make a scalar:
the exact values of the constant that is referred to, the values of the elements of a list,
or the value of a single expression. -/
inductive Decl.Denotes (d : Decl) (g : Graph) : List Binary64 → Bool → Prop
  | reference {name : String} {place : Option Location} {c : Constant}
      {samples : List Binary64} (hvalue : d.value = .name name place)
      (hfind : g.find? name = some c)
      (hsamples : List.Forall₂ (fun v x => x.isFinite ∧ x.toRat = v.toRat) c.values samples) :
      Denotes d g samples c.scalar
  | list {elements : List Expr} {place : Option Location} {samples : List Binary64}
      (hvalue : d.value = .list elements place)
      (hsamples : List.Forall₂ (fun e x => e.eval g.rounded? = .ok x) elements samples) :
      Denotes d g samples false
  | scalar {x : Binary64} (heval : d.value.eval g.rounded? = .ok x) : Denotes d g [x] true

/-- The format that a note stands for. -/
inductive FormatNote.Denotes (config : Config) : FormatNote → Format → Prop
  | explicit {signed : Bool} {integerBits fractionalBits : ℕ} {place : Option Location} :
      Denotes config (.explicit (.bool signed) integerBits fractionalBits place)
        ⟨signed, integerBits, fractionalBits⟩
  | preset {name : String} {place : Option Location} {f : Format}
      (h : config.preset name = some f) : Denotes config (.preset name place) f

/-- A constant is what its declaration says over the graph before it, for given samples: in
the format inferred from them, closer to each than the tolerance, or in the format of the
note and within half a step of each. -/
structure Constant.Realizes (c : Constant) (config : Config) (before : Graph) (d : Decl)
    (samples : List Binary64) : Prop where
  name_eq : c.name = d.name
  place_eq : c.place = d.place
  denotes : d.Denotes before samples c.scalar
  nonempty : c.values ≠ []
  length_of_scalar : c.scalar → c.values.length = 1
  typed : ∀ v ∈ c.values, v.format = c.format ∧ c.format.Holds v.raw
  one_part : d.tolerance.isSome ↔ d.format = none
  of_tolerance : ∀ e, d.tolerance = some e → ∃ t, e.eval before.rounded? = .ok t ∧
    c.tolerance = some t ∧ Inference.infer samples t config.maxFractionalBits = .ok c.format ∧
    List.Forall₂ (fun v x => |v.toRat - x.toRat| < t.toRat) c.values samples
  of_format : ∀ note, d.format = some note → note.Denotes config c.format ∧
    c.tolerance = none ∧
    List.Forall₂ (fun v x => |v.toRat - x.toRat| ≤ 1 / 2 ^ (c.format.fractionalBits + 1))
      c.values samples

/-! ## Samples -/

theorem Decl.source?_eq_some {d : Decl} {g : Graph} {c : Constant} (h : d.source? g = some c) :
    ∃ name place, d.value = .name name place ∧ g.find? name = some c := by
  rw [source?] at h
  split at h
  · next name place hvalue => exact ⟨name, place, hvalue, h⟩
  · cases h

theorem Decl.samples_of_source? {d : Decl} {g : Graph} {c : Constant}
    (h : d.source? g = some c) : d.samples g = .ok (c.reals, c.scalar) := by
  simp only [samples, h]

/-- The samples that were found are the ones denoted, and a scalar has one of them. -/
theorem Decl.denotes_of_samples {d : Decl} {g : Graph} (hg : g.Sound)
    {samples : List Binary64} {scalar : Bool} (h : d.samples g = .ok (samples, scalar)) :
    d.Denotes g samples scalar ∧ (scalar → samples.length = 1) := by
  cases hsource : d.source? g with
  | some c =>
    obtain ⟨name, place, hvalue, hfind⟩ := source?_eq_some hsource
    -- the value is the name of a constant, whose own doubles are taken
    rw [samples_of_source? hsource] at h
    cases h
    have hc := hg.find? hfind
    refine ⟨.reference hvalue hfind hc.reals_exact, fun hscalar => ?_⟩
    rw [Constant.reals, List.length_map]
    exact hc.length_of_scalar hscalar
  | none =>
    by_cases hlist : ∃ elements place, d.value = .list elements place
    · -- it is a list of samples, each evaluated on its own
      obtain ⟨elements, place, hvalue⟩ := hlist
      simp only [Decl.samples, hsource, hvalue, bind_eq_ok, Except.ok.injEq, Prod.mk.injEq] at h
      obtain ⟨xs, hxs, rfl, rfl⟩ := h
      have heval := (mapM_eq_ok.mp hxs).imp fun _ _ => Graph.eval_of_evaluate
      exact ⟨.list hvalue heval, fun hscalar => absurd hscalar Bool.false_ne_true⟩
    · rw [Decl.samples, hsource] at h
      split at h
      · next hnone => cases hnone
      · next elements place _ hvalue => exact absurd ⟨elements, place, hvalue⟩ hlist
      · -- it is any other expression, which has one value
        obtain ⟨x, hx, hpair⟩ := bind_eq_ok.mp h
        cases hpair
        exact ⟨.scalar (Graph.eval_of_evaluate hx), fun _ => rfl⟩

/-! ## Formats -/

theorem FormatNote.denotes_of_resolve {config : Config} {note : FormatNote} {f : Format}
    (h : note.resolve config = .ok f) : note.Denotes config f := by
  cases note with
  | explicit signed integerBits fractionalBits place =>
    obtain ⟨rfl, hinteger, hfractional⟩ := Format.ofParts_eq_ok.mp h
    cases hinteger
    cases hfractional
    exact .explicit
  | preset name place =>
    rw [resolve] at h
    split at h
    · next f' hpreset =>
      cases h
      exact .preset hpreset
    · simp at h
  -- what is neither a format nor the name of a preset is refused
  | misplaced kind => simp [resolve] at h

/-- A declaration whose format was found has a tolerance or a note, and not both. -/
theorem Decl.one_part {d : Decl} (h : d.checkParts = .ok ()) :
    d.tolerance.isSome ↔ d.format = none := by
  rw [checkParts] at h
  split at h
  · simp at h
  · simp at h
  · cases hf : d.format <;> cases ht : d.tolerance <;> simp_all

/-! ## Values -/

/-- Whichever way the values were made, they are the roundings of the samples. -/
theorem Decl.ensures_bindSamples {d : Decl} {g : Graph} (hg : g.Sound)
    {samples : List Binary64} {scalar : Bool} (h : d.samples g = .ok (samples, scalar))
    (b : Binder) (f : Format) :
    Ensures Reached (d.bindSamples b g samples f)
      (List.Forall₂ (fun x v => v.Rounds f x.toRat) samples) := by
  have hfloat : Ensures Reached (b.bindAll f samples)
      (List.Forall₂ (fun x v => v.Rounds f x.toRat) samples) :=
    .mapM fun x _ => b.ensures_bind f x
  rw [bindSamples]
  split
  · next c hsource _ =>
    -- the values are reformatted, and the samples are their doubles
    obtain ⟨name, place, -, hfind⟩ := source?_eq_some hsource
    rw [samples_of_source? hsource] at h
    cases h
    have hc := hg.find? hfind
    have hvalues : Ensures Reached (c.values.mapM fun v => b.reformat v f)
        (List.Forall₂ (fun v w => w.Rounds f v.toReal.toRat) c.values) := by
      apply Ensures.mapM
      intro v hv
      rw [(Fixed.toReal_exact (hc.representable v hv)).2]
      exact b.ensures_reformat v f
    apply hvalues.mono
    intro values h
    rwa [Constant.reals, List.forall₂_map_left_iff]
  · exact hfloat

/-! ## Constants -/

/-- A constant made of roundings is sound. -/
theorem Constant.sound_of_rounds {c : Constant} {samples : List Binary64}
    (hnonempty : samples ≠ []) (hscalar : c.scalar → samples.length = 1)
    (h : List.Forall₂ (fun x v => v.Rounds c.format x.toRat) samples c.values) : c.Sound := by
  have hlength := h.length_eq
  -- each value is the rounding of some sample
  have hrounds : ∀ v ∈ c.values, ∃ x : Binary64, v.Rounds c.format x.toRat :=
    ((List.forall₂_and_left _ _).mp (h.flip.imp fun v x hx => ⟨⟨x, hx⟩, hx⟩)).1
  constructor
  case nonempty =>
    rintro hempty
    rw [hempty] at hlength
    exact hnonempty (List.length_eq_zero_iff.mp hlength)
  case length_of_scalar => exact fun hc => hlength ▸ hscalar hc
  case format_eq =>
    intro v hv
    obtain ⟨x, hx⟩ := hrounds v hv
    exact hx.1
  case representable =>
    intro v hv
    obtain ⟨x, hx⟩ := hrounds v hv
    exact hx.representable (Binary64.representable_toRat x)

/-- What holds of the rounding errors of all samples holds of the distances between them and
the values. -/
theorem Constant.forall₂_abs_sub {c : Constant} {samples : List Binary64} {P : ℚ → Prop}
    (h : List.Forall₂ (fun x v => v.Rounds c.format x.toRat) samples c.values)
    (herror : ∀ x ∈ samples, P (halfUpError x.toRat c.format.fractionalBits)) :
    List.Forall₂ (fun v x => P |v.toRat - x.toRat|) c.values samples := by
  apply List.Forall₂.flip
  apply ((List.forall₂_and_left _ _).mpr ⟨herror, h⟩).imp
  rintro x v ⟨hx, hrounds⟩
  show P |v.toRat - x.toRat|
  rwa [hrounds.abs_sub]

/-- A constant made of roundings realizes the declaration whose samples and format they are. -/
theorem Constant.realizes_of_rounds {c : Constant} {config : Config} {g : Graph} {d : Decl}
    {samples : List Binary64} (hc : c.Sound) (hname : c.name = d.name) (hplace : c.place = d.place)
    (hdenotes : d.Denotes g samples c.scalar) (hpart : d.tolerance.isSome ↔ d.format = none)
    (hresolve : d.resolve config g samples = .ok (c.format, c.tolerance))
    (h : List.Forall₂ (fun x v => v.Rounds c.format x.toRat) samples c.values) :
    c.Realizes config g d samples := by
  constructor
  case name_eq => exact hname
  case place_eq => exact hplace
  case denotes => exact hdenotes
  case nonempty => exact hc.nonempty
  case length_of_scalar => exact hc.length_of_scalar
  case typed =>
    intro v hv
    refine ⟨hc.format_eq v hv, ?_⟩
    rw [← hc.format_eq v hv]
    exact v.holds
  case one_part => exact hpart
  -- inference vouches for the accuracy
  case of_tolerance =>
    intro e he
    simp only [Decl.resolve, he, bind_eq_ok, Except.ok.injEq, Prod.mk.injEq] at hresolve
    obtain ⟨t, ht, f, hinfer, rfl, htolerance⟩ := hresolve
    exact ⟨t, Graph.eval_of_evaluate ht, htolerance.symm, hinfer,
      forall₂_abs_sub (P := (· < t.toRat)) h (Inference.inferred_of_infer hinfer).accurate⟩
  -- with a format of its own the declaration gets half a step
  case of_format =>
    intro note hnote
    have hnone : d.tolerance = none := by
      cases ht : d.tolerance with
      | none => rfl
      | some e => simp [ht, hnote] at hpart
    simp only [Decl.resolve, hnone, hnote, bind_eq_ok, Except.ok.injEq, Prod.mk.injEq] at hresolve
    obtain ⟨f, hf, rfl, htolerance⟩ := hresolve
    exact ⟨FormatNote.denotes_of_resolve hf, htolerance.symm,
      forall₂_abs_sub (P := (· ≤ 1 / 2 ^ (c.format.fractionalBits + 1))) h
        fun x _ => halfUpError_le x.toRat _⟩

/-- Building a declaration over a graph of sound constants gives a sound constant that
realizes it. -/
theorem Decl.ensures_build {g : Graph} (hg : g.Sound) (config : Config) (b : Binder)
    (d : Decl) :
    Ensures Reached (d.build config b g) fun c =>
      c.Sound ∧ ∃ samples, c.Realizes config g d samples := by
  rw [build]
  apply Ensures.of_bind
  intro _ hparts
  apply Ensures.of_bind
  rintro ⟨samples, scalar⟩ hsamples
  dsimp only
  split
  · -- an empty list is refused
    apply Ensures.of_bind
    rintro _ h
    simp at h
  · next hnonempty =>
    apply Ensures.of_bind
    rintro ⟨format, tolerance⟩ hresolve
    apply Ensures.bind (ensures_bindSamples hg hsamples b format)
    -- all samples were rounded to the format, which is all that a sound constant needs
    intro values hvalues
    apply Ensures.pure
    obtain ⟨hdenotes, hscalar⟩ := denotes_of_samples hg hsamples
    have hc := Constant.sound_of_rounds
      (c := ⟨d.name, format, values, scalar, tolerance, d.place⟩) (by simpa using hnonempty)
      hscalar hvalues
    exact ⟨hc, samples,
      Constant.realizes_of_rounds hc rfl rfl hdenotes (one_part hparts) hresolve hvalues⟩

end BinaryPoint
