import BinaryPoint.Proofs.Binder.RoundTrips
import BinaryPoint.Proofs.Graph.Accuracy
import BinaryPoint.Proofs.Graph.Places
import BinaryPoint.Proofs.Inference.Again

/-! # Constants inferred from constants

A constant that takes over another one within the tolerance which that was inferred with has the
same fractional width. Its values are the very numbers of the other one: there is nothing left to
round. What may differ is the range, since that is asked for by the roundings and no more by the
samples they come from.

* `Constant.Realizes.exists_infer_reals`: the inference from the values of a constant;
* `Decl.build_of_source`: what is built from them, and when;
* `Program.reinference_keeps_width`: this for lists of samples and for programs.
-/

namespace BinaryPoint

open Binder (Reached)
open Inference (infer inferFrom)

variable {config : Config} {b : Binder} {cache : Cache ValueType} {g : Graph} {c V : Constant}
  {d : Decl} {e : Expr} {t : Binary64} {f : Format}

/-! ## The values as samples -/

/-- The format of a constant with a tolerance was inferred with it from samples that its values
are near to. -/
theorem Constant.Realizes.inferred {samples : List Binary64} (h : c.Realizes config g d samples)
    (ht : c.tolerance = some t) :
    infer samples t config.maxFractionalBits = .ok c.format ∧
      List.Forall₂ (fun v x => |v.toRat - x.toRat| < t.toRat) c.values samples := by
  cases hd : d.tolerance with
  | some e =>
    obtain ⟨t', -, ht', hinfer, hnear⟩ := h.of_tolerance e hd
    cases ht.symm.trans ht'
    exact ⟨hinfer, hnear⟩
  | none =>
    -- one in the format of a note has no tolerance
    obtain ⟨note, hnote⟩ : ∃ note, d.format = some note := by
      rw [← Option.ne_none_iff_exists', ne_eq, ← h.one_part, hd]
      nofun
    rw [(h.of_format note hnote).2.1] at ht
    cases ht

/-- The values of such a constant have its fractional width inferred once more. -/
theorem Constant.Realizes.exists_infer_reals {samples : List Binary64}
    (h : c.Realizes config g d samples) (hc : c.Sound) (ht : c.tolerance = some t) :
    ∃ f, infer c.reals t config.maxFractionalBits = .ok f ∧
      f.fractionalBits = c.format.fractionalBits := by
  obtain ⟨hinfer, hclose⟩ := h.inferred ht
  obtain ⟨hinferred, hreaches⟩ := Inference.infer_eq_ok_iff.mp hinfer
  have hnear : List.Forall₂ (Inference.Near t c.format.fractionalBits) samples c.reals := by
    rw [Constant.reals, List.forall₂_map_right_iff]
    apply List.Forall₂.flip
    apply ((List.forall₂_and_left _ _).mpr ⟨fun v hv => hv, hclose⟩).imp
    rintro v x ⟨hv, hdistance⟩
    obtain ⟨hfinite, hexact⟩ := Fixed.toReal_exact (hc.representable v hv)
    refine ⟨hfinite, ⟨v.raw, ?_⟩, by rwa [hexact]⟩
    rw [hexact, v.toRat_eq, hc.format_eq v hv]
  exact ⟨_, Inference.infer_eq_ok_iff.mpr ⟨hinferred.of_near hnear, hreaches⟩, rfl⟩

/-! ## What is built -/

/-- A declaration that takes over a constant within a tolerance binds the doubles of its values
to the format inferred from them. -/
theorem Decl.runOn_build_of_source (hsource : d.source? g = some c) (hne : c.values ≠ [])
    (hformat : d.format = none) (htolerance : d.tolerance = some e)
    (heval : g.evaluate e = .ok t) (hinfer : infer c.reals t config.maxFractionalBits = .ok f) :
    ((d.build config b g).runOn cache).1 =
      (c.values.mapM fun v => ((b.bind f v.toReal).runOn cache).1) >>= fun values =>
        .ok ⟨d.name, f, values, c.scalar, some t, d.place⟩ := by
  have hparts : d.checkParts = .ok () := by rw [checkParts, hformat, htolerance]
  have hempty : c.reals.isEmpty = false := by simpa [Constant.reals] using hne
  have hresolve : d.resolve config g c.reals = .ok (f, some t) := by
    simp [resolve, htolerance, heval, hinfer]
  have hmap : ((b.bindAll f c.reals).runOn cache).1 =
      c.values.mapM fun v => ((b.bind f v.toReal).runOn cache).1 := by
    rw [Binder.bindAll, Constant.reals,
      Binder.Binding.Steady.runOn_mapM fun x => Binder.steady_bind b f x, List.mapM_map]
    rfl
  rw [build, hparts, samples_of_source? hsource]
  simp only [Binder.Binding.of_ok_bind, hempty, Bool.false_eq_true, if_false, hresolve,
    bindSamples_of_tolerance htolerance]
  rw [← hmap]
  exact Binder.Binding.runOn_bind_of_fst _ _

/-- On a reachable cache such a constant is built just if the format has a type and its range the
scaled integers of all values, and it has these integers. -/
theorem Decl.build_of_source (hsource : d.source? g = some c) (hc : c.Sound)
    (hformat : d.format = none) (htolerance : d.tolerance = some e)
    (heval : g.evaluate e = .ok t) (hinfer : infer c.reals t config.maxFractionalBits = .ok f)
    (hbits : f.fractionalBits = c.format.fractionalBits) (hcache : Reached cache) :
    ((∃ V, ((d.build config b g).runOn cache).1 = .ok V) ↔
      (∃ t, ((b.typeFor f).runOn cache).1 = .ok t) ∧ ∀ v ∈ c.values, f.Holds v.raw) ∧
    ∀ V, ((d.build config b g).runOn cache).1 = .ok V →
      V.format = f ∧ V.scalar = c.scalar ∧
        List.Forall₂ (Fixed.SameNumber f) c.values V.values := by
  have hwidth (v : Fixed) (hv : v ∈ c.values) : f.fractionalBits = v.format.fractionalBits := by
    rw [hbits, hc.format_eq v hv]
  rw [runOn_build_of_source hsource hc.nonempty hformat htolerance heval hinfer]
  constructor
  · rw [exists_bind_ok_iff, exists_mapM_iff, forall₂_congr fun v hv =>
      Binder.exists_bind_toReal_iff hcache (hc.representable v hv) (hwidth v hv)]
    -- there is a value that the type can be taken from
    obtain ⟨v, hv⟩ := List.exists_mem_of_ne_nil c.values hc.nonempty
    constructor
    · exact fun h => ⟨(h v hv).1, fun w hw => (h w hw).2⟩
    · exact fun h w hw => ⟨h.1, h.2 w hw⟩
  · intro V hV
    obtain ⟨values, hvalues, hV⟩ := bind_eq_ok.mp hV
    cases hV
    refine ⟨rfl, rfl, ?_⟩
    apply ((List.forall₂_and_left _ _).mpr ⟨fun v hv => hv, mapM_eq_ok.mp hvalues⟩).imp
    rintro v w ⟨hv, hw⟩
    exact Binder.sameNumber_of_bind_toReal hcache (hc.representable v hv) (hwidth v hv) hw

/-! ## Programs -/

namespace Program

variable {p : Program} {built : Built} {name : String}

/-- Of a built constant with a tolerance the values have its fractional width inferred again. -/
theorem exists_infer_reals (hcache : Reached cache)
    (h : ((p.build config b).runOn cache).1 = .ok built)
    (hfind : built.graph.find? name = some c) (ht : c.tolerance = some t) :
    ∃ f, infer c.reals t config.maxFractionalBits = .ok f ∧
      f.fractionalBits = c.format.fractionalBits := by
  rw [← withStatements_statements p] at h
  obtain ⟨-, hsound, htraced⟩ := traced_of_build hcache h
  obtain ⟨before, after, hconstants⟩ := List.append_of_mem (List.mem_of_find?_eq_some hfind)
  obtain ⟨_, _, _, _, _, _, _, _, hrealizes⟩ := htraced before c after hconstants
  exact hrealizes.exists_infer_reals (hsound.find? hfind) ht

/-- **Inferring again keeps the fractional width.** Where a format is inferred for doubles, their
roundings to it are doubles, and with the same tolerance and bound the inference for them has the
same fractional width. So a declaration that takes over a built constant, within the value of the
tolerance that this was inferred with, has the fractional width of the constant, to which the
values are rounded as they are. It is built just if the new format has a type and a range that
reaches the old scaled integers, and then it has these very integers. -/
theorem reinference_keeps_width :
    (∀ (xs : List Binary64) (epsilon bound : Datum) (d : Format),
      inferFrom (xs.map .real) epsilon bound = .ok d →
      (∀ x ∈ xs, (x.roundedTo d.fractionalBits).isFinite ∧
        (x.roundedTo d.fractionalBits).toRat = x.scaled d.fractionalBits / 2 ^ d.fractionalBits) ∧
      ∃ again, inferFrom ((xs.map (·.roundedTo d.fractionalBits)).map .real) epsilon bound =
        .ok again ∧ again.fractionalBits = d.fractionalBits) ∧
    ∀ (config : Config) (b : Binder) (cache : Cache ValueType) (p : Program) (built : Built),
      Reached cache → ((p.build config b).runOn cache).1 = .ok built →
      ∀ (name : String) (W : Constant) (t : Binary64),
        built.graph.find? name = some W → W.tolerance = some t →
      ∀ (d : Decl) (place : Option Location) (e : Expr), d.value = .name name place →
        d.format = none → d.tolerance = some e → built.graph.evaluate e = .ok t →
      ∃ f : Format, d.resolve config built.graph W.reals = .ok (f, some t) ∧
        f.fractionalBits = W.format.fractionalBits ∧
        (∀ w ∈ W.values, w.toReal.scaled f.fractionalBits = w.raw) ∧
        ∀ cache', Reached cache' →
          ((∃ V, ((d.build config b built.graph).runOn cache').1 = .ok V) ↔
            (∃ t, ((b.typeFor f).runOn cache').1 = .ok t) ∧ ∀ w ∈ W.values, f.Holds w.raw) ∧
          ∀ V, ((d.build config b built.graph).runOn cache').1 = .ok V →
            V.format = f ∧ V.scalar = W.scalar ∧
              List.Forall₂ (Fixed.SameNumber f) W.values V.values := by
  constructor
  · intro xs epsilon bound d hinfer
    exact ⟨fun x _ => x.toRat_roundedTo d.fractionalBits, Inference.inferFrom_rounded hinfer⟩
  · intro config b cache p built hcache hbuilt name W t hfind ht d place e hvalue hformat
      htolerance heval
    have hc : W.Sound := (sound_of_build hcache hbuilt).find? hfind
    have hsource : d.source? built.graph = some W := by
      rw [Decl.source?, hvalue]
      exact hfind
    obtain ⟨f, hinfer, hbits⟩ := exists_infer_reals hcache hbuilt hfind ht
    refine ⟨f, by simp [Decl.resolve, htolerance, heval, hinfer], hbits, ?_, ?_⟩
    · intro w hw
      rw [hbits, ← hc.format_eq w hw]
      exact w.scaled_toReal (hc.representable w hw)
    · intro cache' hcache'
      exact Decl.build_of_source hsource hc hformat htolerance heval hinfer hbits hcache'

/-- Tenths of two signs within a thousandth: eight bits, and for their roundings as well. -/
theorem reinference_keeps_width_tenths :
    let b : Binder := ⟨.int 1024, 0⟩
    let three := Binary64.ofRatio false 3 10
    let seven := Binary64.ofRatio false 7 10
    let t := Binary64.ofRatio false 1 1000
    let within (name : String) (value : Expr) : Decl :=
      ⟨name, value, none, some (.real t none), none⟩
    let samples : Expr := .list [.real three none, .unary "-" (.real seven none) none] none
    let p : Program := ⟨none, [within "W" samples], none⟩
    let again := within "V" (.name "W" none)
    (∃ d, inferFrom [.real (three.roundedTo 8), .real ((-seven).roundedTo 8)] (.real t) (.int 52) =
      .ok d ∧ d.fractionalBits = 8) ∧
    ∃ built W V, ((p.build .standard b).runOn {}).1 = .ok built ∧
      built.graph.find? "W" = some W ∧ W.values.map (·.raw) = [77, -179] ∧
      ((again.build .standard b built.graph).runOn {}).1 = .ok V ∧ V.format = ⟨true, 1, 8⟩ ∧
      V.scalar = W.scalar ∧ List.Forall₂ (Fixed.SameNumber ⟨true, 1, 8⟩) W.values V.values := by
  intro b three seven t within samples p again
  obtain ⟨hinference, hprogram⟩ := reinference_keeps_width
  constructor
  · have hinfer : inferFrom ([three, -seven].map .real) (.real t) (.int 52) = .ok ⟨true, 1, 8⟩ :=
      eq_ok_of_toOption (by decide +kernel)
    exact (hinference [three, -seven] (.real t) (.int 52) _ hinfer).2
  · -- the first build, with the doubles and the scaled integers of its values
    have hparts : ((p.build .standard b).runOn {}).1.toOption.bind (fun built =>
        (built.graph.find? "W").map fun W => (W.tolerance, W.reals, W.values.map (·.raw))) =
          some (some t, [three.roundedTo 8, (-seven).roundedTo 8], [77, -179]) := by
      decide +kernel
    obtain ⟨built, hbuilt, hsome⟩ := Option.bind_eq_some_iff.mp hparts
    obtain ⟨W, hfind, hW⟩ := Option.map_eq_some_iff.mp hsome
    obtain ⟨ht, hreals, hraws⟩ : W.tolerance = some t ∧
        W.reals = [three.roundedTo 8, (-seven).roundedTo 8] ∧ W.values.map (·.raw) = [77, -179] := by
      simpa using hW
    have h := eq_ok_of_toOption hbuilt
    obtain ⟨f, hresolve, -, -, hagain⟩ := hprogram .standard b {} p built .empty h "W" W t hfind ht
      again none (.real t none) rfl rfl rfl rfl
    have hinfer : infer W.reals t (.int 52) = .ok ⟨true, 1, 8⟩ := by
      rw [hreals]
      exact eq_ok_of_toOption (by decide +kernel)
    -- the second declaration has the format inferred from these doubles
    have hsame : again.resolve .standard built.graph W.reals =
        infer W.reals t (.int 52) >>= fun f => .ok (f, some t) := rfl
    rw [hsame, hinfer] at hresolve
    cases hresolve
    have htype : ((b.typeFor (.format ⟨true, 1, 8⟩)).runOn {}).1 =
        .ok ⟨⟨true, 1, 8⟩, 0, by decide⟩ := eq_ok_of_toOption (by decide +kernel)
    have hholds : ∀ raw ∈ W.values.map (·.raw), (⟨true, 1, 8⟩ : Format).Holds raw := by
      rw [hraws]
      decide
    obtain ⟨hbuilds, hvalues⟩ := hagain {} .empty
    obtain ⟨V, hV⟩ := hbuilds.mpr ⟨⟨_, htype⟩, List.forall_mem_map.mp hholds⟩
    exact ⟨built, W, V, h, hfind, hraws, hV, hvalues V hV⟩

/-- A range that the roundings do not ask for: by its logarithm the second sample asks for 49 bits
and its rounding for 48, which are not enough for the first one. -/
example :
    let t : Expr := .real (.ofRatio false 3 10) none
    let above : Expr := .real (.ofRatio false (2 ^ 49 + 1) 2) none
    let below : Expr := .unary "-" (.real (.ofRatio false (2 ^ 53 - 9) 32) none) none
    let p : Program := ⟨none, [⟨"W", .list [above, below] none, none, some t, none⟩,
      ⟨"V", .name "W" none, none, some t, none⟩], none⟩
    let built := ((p.build .standard ⟨.int 1024, 0⟩).runOn {}).1.toOption
    built.map (·.graph.formats) = some [("W", ⟨true, 49, 1⟩)] ∧
      built.map (·.diagnostics.length) = some 1 := by decide +kernel

end Program

end BinaryPoint
