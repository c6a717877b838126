import BinaryPoint.Config
import BinaryPoint.Proofs.Arithmetic
import BinaryPoint.Proofs.Binder.Answers
import BinaryPoint.Proofs.Binder.History
import BinaryPoint.Proofs.Binder.Made
import BinaryPoint.Proofs.Format.Key

/-! # Stored values

A value is stored as the key of its format and its scaled integer, and rebuilt by whichever binder
is there then. The key is read back as the format, whose range holds the integer, so all that is
left open is whether that binder has a type of the format.

* `restore_stored`: rebuilding comes to the answer for the format, with the integer put in;
* `exists_restored_iff`: an equal value is rebuilt just if there is such an answer;
* `restored_default`: the standard binder has one for the formats within its limit, and for wider
  ones that its cache keeps.
-/

namespace BinaryPoint.Binder

variable {v : Fixed} {cache : Cache ValueType}

/-- What is stored of a value leads to a request for its format. -/
theorem restore_stored (b : Binder) (cache : Cache ValueType) (hv : v.format.Writable) :
    ((b.restore (stored v).1 (stored v).2).runOn cache).1 =
      (b.answer cache v.format).bind fun t => Fixed.ofRaw t v.raw := by
  have hparse : Format.parse (stored v).1 = .ok v.format := Format.parse_key hv
  rw [restore, hparse, ← runOn_typeForFormat_fst]
  exact Binding.runOn_bind_of_fst _ _

/-- The answer for a format is a type of that format. -/
theorem format_of_answer {b : Binder} {f : Format} {t : ValueType} (hcache : Reached cache)
    (h : b.answer cache f = .ok t) : t.format = f :=
  (ensures_typeFor b f cache hcache).2 t ((runOn_typeForFormat_fst b f cache).trans h)

/-- A value that was made is rebuilt by every binder that has a type of its format. -/
theorem exists_restored_iff (b : Binder) (hv : Made v) (hcache : Reached cache) :
    (∃ w, ((b.restore (stored v).1 (stored v).2).runOn cache).1 = .ok w ∧
        w.format = v.format ∧ w.eq v) ↔
      ∃ t, b.answer cache v.format = .ok t := by
  rw [restore_stored b cache hv.writable]
  constructor
  · rintro ⟨w, hw, -⟩
    obtain ⟨t, ht, -⟩ := bind_eq_ok.mp hw
    exact ⟨t, ht⟩
  · rintro ⟨t, ht⟩
    have hformat : t.format = v.format := format_of_answer hcache ht
    obtain ⟨w, hw, heq⟩ := Fixed.exists_ofRaw_eq (v := v) hformat
    exact ⟨w, bind_eq_ok.mpr ⟨t, ht, hw⟩, (Fixed.eq_iff.mp heq).1, heq⟩

/-- The standard binder makes the type of every format of a value that is within its limit. -/
theorem exists_synthesize_standard (origin : ℕ) (hv : Made v)
    (h : v.format.width ≤ defaultLimit) :
    ∃ t, (Config.standard.binder origin).synthesize v.format = .ok t := by
  refine exists_synthesize_iff.mpr ⟨?_, v.type.bounded, hv.writable⟩
  have hcompare : compare (v.format.width : ℤ) defaultLimit ≠ .gt := by
    rw [ne_eq, compare_gt_iff_gt]
    exact_mod_cast h.not_gt
  simpa [exceeds, Config.binder, Config.standard, Datum.number?, Datum.Number.compare?]
    using hcompare

/-- Whatever binders made a value, the standard binder rebuilds an equal value of its format if
that is within its own limit or its cache has a type of it; or else it refuses the format. -/
theorem restored_default (v : Fixed) (hv : Made v) (cache : Cache ValueType)
    (hcache : Reached cache) (origin : ℕ) :
    let b := Config.standard.binder origin
    let restored := ((b.restore (stored v).1 (stored v).2).runOn cache).1
    let served := v.format.width ≤ defaultLimit ∨ (cache.get? v.format).isSome
    (served → ∃ w, restored = .ok w ∧ w.format = v.format ∧ w.eq v) ∧
      (¬ served → restored = refuse (.tooWide v.format (.int defaultLimit))) := by
  intro b restored served
  constructor
  · intro hserved
    rw [exists_restored_iff b hv hcache, answer]
    split
    · exact ⟨_, rfl⟩
    · next hget =>
      have hfits : v.format.width ≤ defaultLimit := hserved.resolve_right (by simp [hget])
      exact exists_synthesize_standard origin hv hfits
  · intro hserved
    -- no type is kept for the format, so that the binder has to make one, and it is too wide
    obtain ⟨hwide, hnone⟩ := not_or.mp hserved
    have hget : cache.get? v.format = none := by simpa using hnone
    have hrefused : b.synthesize v.format = refuse (.tooWide v.format (.int defaultLimit)) :=
      synthesize_of_limit_lt rfl (by exact_mod_cast not_le.mp hwide)
    have hanswer : b.answer cache v.format = refuse (.tooWide v.format (.int defaultLimit)) := by
      rw [answer, hget, hrefused]
    change ((b.restore (stored v).1 (stored v).2).runOn cache).1 = _
    rw [restore_stored b cache hv.writable, hanswer]
    rfl

/-- One half in a format of 1025 bits, which a binder with a limit of 2048 makes: the standard
binder does not rebuild it from an empty cache, but from one that the other binder shares. In a
format of 1024 bits it is rebuilt anyway. -/
theorem restored_default_halves :
    let b : Binder := ⟨.int 2048, 7⟩
    let wide : Format := ⟨true, 0, 1024⟩
    let half : Fixed := ⟨⟨wide, 7, by decide⟩, 2 ^ 1023, by decide +kernel⟩
    let narrowHalf : Fixed := ⟨⟨⟨false, 0, 1024⟩, 7, by decide⟩, 2 ^ 1023, by decide +kernel⟩
    let restored (v : Fixed) (cache : Cache ValueType) : Except Fault Fixed :=
      (((Config.standard.binder 0).restore (stored v).1 (stored v).2).runOn cache).1
    Made half ∧ Made narrowHalf ∧
      (∃ w, restored narrowHalf {} = .ok w ∧ w.format = narrowHalf.format ∧ w.eq narrowHalf) ∧
      (∃ w, restored half ((b.typeFor wide).runOn {}).2 = .ok w ∧ w.format = wide ∧ w.eq half) ∧
      restored half {} = refuse (.tooWide wide (.int 1024)) := by
  intro b wide half narrowHalf restored
  have hhalf : Made half := .bound (f := wide) (x := .ofRatio false 1 2)
    ⟨b, {}, .empty, eq_ok_of_toOption (by decide +kernel)⟩
  have hnarrow : Made narrowHalf := .bound (f := narrowHalf.format) (x := .ofRatio false 1 2)
    ⟨b, {}, .empty, eq_ok_of_toOption (by decide +kernel)⟩
  refine ⟨hhalf, hnarrow, ?_, ?_, ?_⟩
  · exact (restored_default narrowHalf hnarrow {} .empty 0).1 (.inl (by decide))
  · exact (restored_default half hhalf _ (.request b wide .empty) 0).1
      (.inr (by decide +kernel))
  · exact (restored_default half hhalf {} .empty 0).2 (by decide)

/-- Not every value that was made is rebuilt by the standard binder. -/
theorem not_forall_restored :
    ¬ ∀ (v : Fixed) (cache : Cache ValueType) (origin : ℕ), Made v → Reached cache →
      ∃ w, (((Config.standard.binder origin).restore (stored v).1 (stored v).2).runOn cache).1 =
          .ok w ∧ w.format = v.format ∧ w.eq v := by
  intro hall
  let wide : Format := ⟨true, 0, 1024⟩
  let half : Fixed := ⟨⟨wide, 7, by decide⟩, 2 ^ 1023, by decide +kernel⟩
  have hhalf : Made half := .bound (f := wide) (x := .ofRatio false 1 2)
    ⟨⟨.int 2048, 7⟩, {}, .empty, eq_ok_of_toOption (by decide +kernel)⟩
  have hnone : ¬ ∃ t, (Config.standard.binder 0).answer {} wide = .ok t := by
    rintro ⟨t, ht⟩
    obtain ⟨hfits, -⟩ := exists_synthesize_iff.mp ⟨t, ht⟩
    exact absurd (congrArg Except.toOption hfits) (by decide)
  exact hnone ((exists_restored_iff _ hhalf .empty).mp (hall half {} 0 hhalf .empty))

end BinaryPoint.Binder
