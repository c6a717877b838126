import BinaryPoint.Proofs.Binder.Faults
import BinaryPoint.Proofs.Expr.Finite
import BinaryPoint.Proofs.Graph.Declaration
import BinaryPoint.Proofs.Inference.Faults
import BinaryPoint.Proofs.Program.Notes
import BinaryPoint.Proofs.Registry.Limits

/-! # How a declaration fails

Over a sound graph, a declaration of a text that fails does so with a reported fault, but for
two causes that lie in the limits: a search whose bound is a double, and a format that is too
wide for its width to be written (`Decl.Escapes`). Evaluation has no part in this, since a
constant that an expression may use always has its value.

* `Decl.atWorst_build`: the faults of building a declaration.
-/

namespace BinaryPoint

open Binder (Reached)
open Binder.Binding (Ensures)

/-! ## Evaluation -/

namespace Graph.Sound

variable {g : Graph}

/-- A scalar constant of a sound graph has a value, so that only lists are in the way. -/
theorem atWorst_environment (hg : g.Sound) :
    ∀ names : List (String × Option Location), AtWorst (·.reported) (g.environment names)
  | [] => .ok []
  | (name, place) :: others => by
    rw [environment]
    cases hfind : g.find? name with
    | none => exact atWorst_environment hg others
    | some c =>
      by_cases hscalar : c.scalar
      · obtain ⟨v, hv⟩ := List.length_eq_one_iff.mp ((hg.find? hfind).length_of_scalar hscalar)
        have hvalue : c.value = .ok v := by rw [Constant.value, hscalar, hv]
        simp only [hscalar, Bool.not_true, Bool.false_eq_true, if_false, hvalue, ok_bind]
        exact AtWorst.bind (atWorst_environment hg others) fun env _ => .ok _
      · simp only [hscalar, Bool.not_false, if_true, refuse_bind]
        exact .report rfl rfl

theorem atWorst_evaluate (hg : g.Sound) (e : Expr) : AtWorst (·.reported) (g.evaluate e) := by
  rw [evaluate]
  apply AtWorst.bind (hg.atWorst_environment e.names)
  intro env _
  refine (Expr.atWorst_eval _ e).mono fun f hf => ?_
  rw [Fault.reported, hf]

end Graph.Sound

/-! ## One declaration -/

theorem Format.checkWidth_natCast (field : WidthField) (n : ℕ) :
    checkWidth field (.int n) = .ok n := by
  rw [checkWidth, if_neg (by omega), Int.toNat_natCast]

/-- A note of a text stands for a format, unless it names a preset that there is not. -/
theorem FormatNote.Written.atWorst_resolve {note : FormatNote} (h : note.Written)
    (config : Config) : AtWorst (·.reported) (note.resolve config) := by
  cases h with
  | explicit signed integerBits fractionalBits place =>
    rw [resolve, Format.ofParts, Format.checkWidth_natCast, Format.checkWidth_natCast]
    exact AtWorst.ok (Format.mk signed integerBits fractionalBits)
  | preset name place =>
    rw [resolve]
    split
    · exact .ok _
    · exact .report rfl rfl

namespace Decl

variable {config : Config} {b : Binder} {g : Graph} {d : Decl}

theorem atWorst_checkParts : AtWorst (·.reported) d.checkParts := by
  rw [checkParts]
  split
  · exact .report rfl rfl
  · exact .report rfl rfl
  · exact .ok ()

theorem atWorst_samples (hg : g.Sound) : AtWorst (·.reported) (d.samples g) := by
  rw [samples]
  split
  · exact .ok _
  · exact AtWorst.bind (.mapM fun e _ => hg.atWorst_evaluate e) fun xs _ => .ok _
  · exact AtWorst.bind (hg.atWorst_evaluate _) fun x _ => .ok _

/-- The faults that are not reported: the search for a format has a double for its bound, or
the format that is asked for is too wide for its width to be written. -/
inductive Escapes (config : Config) (d : Decl) : Fault → Prop
  | bound {e : Expr} {x : Binary64} (htolerance : d.tolerance = some e)
      (hbound : config.maxFractionalBits = .real x) : Escapes config d .exponentNotInteger
  | width {note : FormatNote} {f : Format} (hnote : d.format = some note)
      (hdenotes : note.Denotes config f) (hwide : Decimal.writeLimit ≤ f.width) :
      Escapes config d .integerTooLong

/-- The faults that building a declaration may end in, reported or not. -/
def Fails (config : Config) (d : Decl) (f : Fault) : Prop := f.reported ∨ d.Escapes config f

theorem atWorst_infer (hconfig : config.Bounded) {e : Expr} (he : d.tolerance = some e)
    (samples : List Binary64) (tolerance : Binary64) :
    AtWorst (d.Fails config) (Inference.infer samples tolerance config.maxFractionalBits) := by
  rcases hconfig.fractional with ⟨n, hn, hlow, hhigh⟩ | ⟨x, hx⟩
  · rw [hn]
    exact (Inference.atWorst_infer_int hlow hhigh).mono fun _ h => .inl h
  · rw [hx]
    refine Inference.atWorst_infer_real.mono ?_
    rintro f (h | rfl)
    · exact .inl h
    · exact .inr (.bound he hx)

theorem atWorst_resolve (hconfig : config.Bounded) (hg : g.Sound) (hd : d.Written)
    (samples : List Binary64) : AtWorst (d.Fails config) (d.resolve config g samples) := by
  have hreported : ∀ f : Fault, f.reported → d.Fails config f := fun _ h => .inl h
  unfold resolve
  cases htolerance : d.tolerance with
  | some e =>
    apply AtWorst.bind ((hg.atWorst_evaluate e).mono hreported)
    intro tolerance _
    exact AtWorst.bind (atWorst_infer hconfig htolerance samples tolerance) fun f _ => .ok _
  | none =>
    cases hformat : d.format with
    | none => exact (AtWorst.report rfl rfl).mono hreported
    | some note =>
      have hnote := (hd note hformat).atWorst_resolve config
      exact AtWorst.bind (hnote.mono hreported) fun f _ => .ok _

/-- An inferred format is never too wide, and one that is too wide was asked for. -/
theorem fails_of_refuses (hconfig : config.Bounded) {samples : List Binary64} {f : Format}
    {tolerance : Option Binary64} (h : d.resolve config g samples = .ok (f, tolerance)) :
    ∀ fault, f.Refuses fault → d.Fails config fault := by
  rintro fault (hreported | ⟨rfl, hwide⟩)
  · exact .inl hreported
  -- the format is too wide: where did it come from?
  unfold resolve at h
  split at h
  · next e htolerance =>
    obtain ⟨t, -, h⟩ := bind_eq_ok.mp h
    obtain ⟨f, hinfer, hresult⟩ := bind_eq_ok.mp h
    cases hresult
    have hinferred := Inference.inferred_of_infer hinfer
    rcases hconfig.fractional with ⟨n, hn, -, hhigh⟩ | ⟨x, hx⟩
    · -- the widths of samples are far below the limit
      rw [hn] at hinferred
      exact absurd (hinferred.width_lt hhigh) (not_lt.mpr hwide)
    · -- no format is found with such a bound
      obtain ⟨count, hcount, -⟩ := hinferred.within
      rw [hx] at hcount
      cases hcount
  · next note _ hformat =>
    -- from the declaration itself
    obtain ⟨f, hresolve, hresult⟩ := bind_eq_ok.mp h
    cases hresult
    exact .inr (.width hformat (FormatNote.denotes_of_resolve hresolve) hwide)
  · simp at h

/-- The values of a constant that is taken over are doubles, like the samples. -/
theorem atWorst_bindSamples (hb : b.Limited) (hg : g.Sound) (samples : List Binary64)
    (f : Format) : Binder.Binding.AtWorst Reached f.Refuses (d.bindSamples b g samples f) := by
  rw [bindSamples]
  split
  · next c hsource _ =>
    -- the values are reformatted, and each of them is a double in a sound graph
    obtain ⟨name, place, -, hfind⟩ := source?_eq_some hsource
    exact .mapM (fun v hv => Binder.atWorst_reformat hb f ((hg.find? hfind).representable v hv))
      fun v _ => b.ensures_reformat v f
  · exact .mapM (fun x _ => Binder.atWorst_bind hb f x) fun x _ => b.ensures_bind f x

/-- A declaration of a text fails with a reported fault, or for one of the two causes that lie
in the limits. -/
theorem atWorst_build (hconfig : config.Bounded) (hb : b.Limited) (hg : g.Sound)
    (hd : d.Written) :
    Binder.Binding.AtWorst Reached (d.Fails config) (d.build config b g) := by
  have hreported : ∀ f : Fault, f.reported → d.Fails config f := fun _ h => .inl h
  rw [build]
  apply Binder.Binding.AtWorst.of_bind (atWorst_checkParts.mono hreported)
  intro _ _
  apply Binder.Binding.AtWorst.of_bind ((atWorst_samples hg).mono hreported)
  rintro ⟨samples, scalar⟩ hsamples
  dsimp only
  split
  · -- an empty list is reported
    exact .of_bind ((AtWorst.report rfl rfl).mono hreported) fun _ h => absurd h (refuse_ne_ok _ _)
  · apply Binder.Binding.AtWorst.of_bind (atWorst_resolve hconfig hg hd samples)
    rintro ⟨f, tolerance⟩ hresolve
    apply Binder.Binding.AtWorst.bind
      ((atWorst_bindSamples hb hg samples f).mono (fails_of_refuses hconfig hresolve))
      (ensures_bindSamples hg hsamples b f)
    intro values _
    exact .pure _

end Decl

end BinaryPoint
