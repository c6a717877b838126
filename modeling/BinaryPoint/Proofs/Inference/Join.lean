import BinaryPoint.Proofs.Inference.Threshold
import BinaryPoint.Proofs.Inference.Width

/-! # Inference over more samples

One format is searched for all samples together. It is nevertheless put together from the
samples one by one: each field is the greatest that some part of the samples asks for by
itself. For the fractional width this rests on the threshold, since the widths that suit
both of two lists are those from the greater of their thresholds on.

* `Inferred.append`: the format of two lists together is the join of their formats;
* `Inferred.of_mem_iff`, `Inferred.fields_le`: only which samples there are matters, and with
  more of them no field gets narrower;
* `infer_append`: so much for `infer`.
-/

namespace BinaryPoint.Inference

variable {xs ys : List Binary64} {tolerance : Binary64} {bound : Datum} {d e : Format}

/-! ## Integer bits -/

/-- More samples ask for no fewer integer bits. -/
theorem integerBits_mono (hne : xs ≠ []) (hys : ∀ y ∈ ys, y.isFinite) (hsub : xs ⊆ ys) :
    integerBits xs ≤ integerBits ys := by
  rw [integerBits_le_iff hne fun x hx => hys x (hsub hx)]
  intro x hx
  exact integerWidth_le_integerBits hys (hsub hx)

theorem integerBits_append (hxne : xs ≠ []) (hyne : ys ≠ []) (hxs : ∀ x ∈ xs, x.isFinite)
    (hys : ∀ y ∈ ys, y.isFinite) :
    integerBits (xs ++ ys) = max (integerBits xs) (integerBits ys) := by
  apply eq_of_forall_ge_iff
  intro n
  have hne : xs ++ ys ≠ [] := List.append_ne_nil_of_left_ne_nil hxne ys
  have hfinite : ∀ z ∈ xs ++ ys, z.isFinite := List.forall_mem_append.mpr ⟨hxs, hys⟩
  rw [max_le_iff, integerBits_le_iff hne hfinite, integerBits_le_iff hxne hxs,
    integerBits_le_iff hyne hys, List.forall_mem_append]

/-! ## Formats -/

namespace Inferred

/-- The format of two lists together has a sign if one of theirs has, and in both widths the
greater one. -/
theorem append (hx : Inferred xs tolerance bound d) (hy : Inferred ys tolerance bound e) :
    Inferred (xs ++ ys) tolerance bound
      ⟨d.signed || e.signed, max d.integerBits e.integerBits,
        max d.fractionalBits e.fractionalBits⟩ := by
  -- Each list is suited by the widths from its threshold on, both are from the greater one on.
  have hthreshold (bits : ℕ) :
      (∀ z ∈ xs ++ ys, halfUpError z.toRat bits < tolerance.toRat) ↔
        max d.fractionalBits e.fractionalBits ≤ bits := by
    rw [List.forall_mem_append, hx.accurate_iff, hy.accurate_iff, max_le_iff]
  exact
    { nonempty := List.append_ne_nil_of_left_ne_nil hx.nonempty ys
      tolerance_finite := hx.tolerance_finite
      tolerance_pos := hx.tolerance_pos
      finite := List.forall_mem_append.mpr ⟨hx.finite, hy.finite⟩
      signed_eq := by rw [hx.signed_eq, hy.signed_eq, List.any_append]
      integerBits_eq := by
        rw [hx.integerBits_eq, hy.integerBits_eq,
          integerBits_append hx.nonempty hy.nonempty hx.finite hy.finite]
      within := by
        obtain ⟨count, hcount, hxlt⟩ := hx.within
        obtain ⟨count', hcount', hylt⟩ := hy.within
        cases hcount.symm.trans hcount'
        exact ⟨count, hcount, by simp only; omega⟩
      accurate := (hthreshold _).mpr le_rfl
      first := fun bits hlt hall => absurd ((hthreshold bits).mp hall) (not_le.mpr hlt) }

/-- With more samples no field gets narrower. -/
theorem fields_le (hx : Inferred xs tolerance bound d) (hy : Inferred ys tolerance bound e)
    (hsub : xs ⊆ ys) :
    (d.signed → e.signed) ∧ d.integerBits ≤ e.integerBits ∧
      d.fractionalBits ≤ e.fractionalBits := by
  refine ⟨?_, ?_, ?_⟩
  · rw [hx.signed_iff, hy.signed_iff]
    rintro ⟨x, hmem, hneg⟩
    exact ⟨x, hsub hmem, hneg⟩
  · rw [hx.integerBits_eq, hy.integerBits_eq]
    exact integerBits_mono hx.nonempty hy.finite hsub
  · rw [← hx.accurate_iff]
    exact fun x hmem => hy.accurate x (hsub hmem)

/-- Neither the order of the samples matters nor how often each one is there. -/
theorem of_mem_iff (hx : Inferred xs tolerance bound d) (hmem : ∀ z, z ∈ ys ↔ z ∈ xs) :
    Inferred ys tolerance bound d := by
  have hne : ys ≠ [] := by
    obtain ⟨z, hz⟩ := List.exists_mem_of_ne_nil xs hx.nonempty
    exact List.ne_nil_of_mem ((hmem z).mpr hz)
  have hfinite : ∀ y ∈ ys, y.isFinite := fun y hy => hx.finite y ((hmem y).mp hy)
  -- each field depends on which samples there are, and on nothing else
  exact
    { nonempty := hne
      tolerance_finite := hx.tolerance_finite
      tolerance_pos := hx.tolerance_pos
      finite := hfinite
      signed_eq := by
        rw [hx.signed_eq, Bool.eq_iff_iff, List.any_eq_true, List.any_eq_true]
        simp only [hmem]
      integerBits_eq := by
        rw [hx.integerBits_eq]
        apply le_antisymm
        · exact integerBits_mono hx.nonempty hfinite fun z hz => (hmem z).mpr hz
        · exact integerBits_mono hne hx.finite fun z hz => (hmem z).mp hz
      within := hx.within
      accurate := fun y hy => hx.accurate y ((hmem y).mp hy)
      first := by
        intro bits hlt hall
        exact hx.first bits hlt fun x hmemx => hall x ((hmem x).mpr hmemx) }

end Inferred

/-! ## The join -/

/-- Two lists of samples for each of which a format is found have a format together, the join
of both. So the order and the repetition of samples change nothing, and with more samples no
field gets narrower. -/
theorem infer_append (hx : infer xs tolerance bound = .ok d)
    (hy : infer ys tolerance bound = .ok e) :
    infer (xs ++ ys) tolerance bound =
        .ok ⟨d.signed || e.signed, max d.integerBits e.integerBits,
          max d.fractionalBits e.fractionalBits⟩ ∧
      (∀ zs, (∀ z, z ∈ zs ↔ z ∈ xs) → infer zs tolerance bound = .ok d) ∧
      ∀ zs f, xs ⊆ zs → infer zs tolerance bound = .ok f →
        (d.signed → f.signed) ∧ d.integerBits ≤ f.integerBits ∧
          d.fractionalBits ≤ f.fractionalBits := by
  obtain ⟨hxs, hreaches⟩ := infer_eq_ok_iff.mp hx
  obtain ⟨hys, -⟩ := infer_eq_ok_iff.mp hy
  refine ⟨?_, ?_, ?_⟩
  · exact infer_eq_ok_iff.mpr ⟨hxs.append hys, hreaches⟩
  · intro zs hmem
    exact infer_eq_ok_iff.mpr ⟨hxs.of_mem_iff hmem, hreaches⟩
  · intro zs f hsub hz
    exact hxs.fields_le (infer_eq_ok_iff.mp hz).1 hsub

/-- Eighths above one and a negative half, within a thousandth: the first list decides on the
widths and the second one on the sign. To have the eighths twice, once in reverse, changes
nothing. -/
theorem infer_append_eighths :
    let eighths := [.ofRatio false 9 8, Binary64.ofRatio false 17 8]
    let half := [Binary64.ofRatio true 1 2]
    let tolerance := Binary64.ofRatio false 1 1000
    infer eighths tolerance (.int 52) = .ok ⟨false, 2, 3⟩ ∧
      infer half tolerance (.int 52) = .ok ⟨true, 1, 1⟩ ∧
      infer (eighths ++ half) tolerance (.int 52) = .ok ⟨true, 2, 3⟩ ∧
      infer (eighths.reverse ++ eighths) tolerance (.int 52) = .ok ⟨false, 2, 3⟩ := by
  intro eighths half tolerance
  have hx : infer eighths tolerance (.int 52) = .ok ⟨false, 2, 3⟩ :=
    eq_ok_of_toOption (by decide +kernel)
  have hy : infer half tolerance (.int 52) = .ok ⟨true, 1, 1⟩ :=
    eq_ok_of_toOption (by decide +kernel)
  obtain ⟨hjoin, hsame, -⟩ := infer_append hx hy
  exact ⟨hx, hy, hjoin, hsame _ fun z => by simp⟩

end BinaryPoint.Inference
