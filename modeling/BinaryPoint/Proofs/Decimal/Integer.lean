import BinaryPoint.Proofs.Decimal.Numeral
import BinaryPoint.Proofs.Faults
import Mathlib.Data.Nat.Digits.Defs

/-! # Natural numbers in decimal

A row of decimal digits is read as the number that it stands for, whatever the script of each
digit, provided that it is not too long. The text that a number is written as is such a row, so
what was written is read back.

* `Denotes`: which rows stand for a number, and for which one;
* `readDigits_eq_ok_iff`: these rows are read, as these numbers;
* `Short.denotes_toDigits`: a number that can be written is written as such a row.
-/

namespace BinaryPoint.Decimal

/-! ## Rows of digits -/

/-- A row of decimal digits of any script, no longer than may be read, and the number that it
stands for. Leading zeros are digits like the others. -/
inductive Denotes : List Char → Nat → Prop
  | intro {cs : List Char} {ds : List Nat} (hne : cs ≠ []) (hlength : cs.length ≤ digitLimit)
      (hvalues : List.Forall₂ (fun c d => Text.digitValue? c = some d) cs ds) :
      Denotes cs (Nat.ofDigits 10 ds.reverse)

theorem digitValue?_lt {c : Char} {d : Nat} (h : Text.digitValue? c = some d) : d < 10 := by
  rw [Text.digitValue?, Option.map_eq_some_iff] at h
  obtain ⟨z, hz, rfl⟩ := h
  have hnear := List.find?_some hz
  simp only [Bool.and_eq_true, decide_eq_true_eq] at hnear
  omega

/-- Characters with a digit value each are decimal digits, with values below ten. -/
theorem forall_mem_of_values {cs : List Char} {ds : List Nat}
    (h : List.Forall₂ (fun c d => Text.digitValue? c = some d) cs ds) :
    (∀ c ∈ cs, IsDecimal c) ∧ ∀ d ∈ ds, d < 10 := by
  induction h with
  | nil => exact ⟨nofun, nofun⟩
  | cons hd _ ih =>
    refine ⟨List.forall_mem_cons.mpr ⟨?_, ih.1⟩,
      List.forall_mem_cons.mpr ⟨digitValue?_lt hd, ih.2⟩⟩
    rw [IsDecimal, hd]
    rfl

theorem Denotes.isDecimal {cs : List Char} {n : Nat} (h : Denotes cs n) :
    cs ≠ [] ∧ ∀ c ∈ cs, IsDecimal c := by
  obtain ⟨hne, -, hvalues⟩ := h
  exact ⟨hne, (forall_mem_of_values hvalues).1⟩

/-- A number of few enough digits can be written. -/
theorem Denotes.short {cs : List Char} {n : Nat} (h : Denotes cs n) : Short n := by
  obtain @⟨ds, -, hlength, hvalues⟩ := h
  have hdigits := (forall_mem_of_values hvalues).2
  rw [Short, Int.natAbs_natCast]
  calc Nat.ofDigits 10 ds.reverse < 10 ^ ds.reverse.length :=
        Nat.ofDigits_lt_base_pow_length (by decide) (by simpa using hdigits)
    _ ≤ 10 ^ digitLimit := by
        rw [List.length_reverse, ← hvalues.length_eq]
        exact Nat.pow_le_pow_right (by decide) hlength

/-! ## Reading -/

theorem mapM_digitValue?_eq_some {cs : List Char} {ds : List Nat} :
    cs.mapM Text.digitValue? = some ds ↔
      List.Forall₂ (fun c d => Text.digitValue? c = some d) cs ds := by
  induction cs generalizing ds with
  | nil => simp [eq_comm]
  | cons c cs ih =>
    simp only [List.mapM_cons, Option.bind_eq_bind, Option.bind_eq_some_iff, ih,
      List.forall₂_cons_left_iff, Option.pure_def, Option.some.injEq]
    constructor
    · rintro ⟨d, hd, ds', hds', rfl⟩
      exact ⟨d, ds', hd, hds', rfl⟩
    · rintro ⟨d, ds', hd, hds', rfl⟩
      exact ⟨d, hd, ds', hds', rfl⟩

/-- The reader starts at the leading digit, and the library's value of a row at the last one. -/
theorem ofDigits_eq (ds : List Nat) : ofDigits ds = Nat.ofDigits 10 ds.reverse := by
  rw [Nat.ofDigits_eq_foldr, List.foldr_reverse, ofDigits]
  congr 1
  funext n d
  rw [Nat.cast_id, Nat.add_comm]

/-- The rows that stand for a number are the ones that are read. -/
theorem readDigits_eq_ok_iff {cs : List Char} {n : Nat} :
    readDigits cs = .ok n ↔ Denotes cs n := by
  constructor
  · intro h
    unfold readDigits at h
    split at h
    · next c cs ds hds =>
      -- every character has a value, and the row is not too long
      have hvalues := mapM_digitValue?_eq_some.mp hds
      split at h
      · next hlength =>
        cases h
        rw [ofDigits_eq]
        exact .intro (List.cons_ne_nil c cs) (hvalues.length_eq ▸ hlength) hvalues
      · cases h
    · cases h
  · rintro @⟨ds, hne, hlength, hvalues⟩
    obtain ⟨c, cs, rfl⟩ := List.exists_cons_of_ne_nil hne
    unfold readDigits
    rw [mapM_digitValue?_eq_some.mpr hvalues]
    dsimp only
    rw [if_pos (hvalues.length_eq ▸ hlength), ofDigits_eq]

/-! ## Writing -/

/-- The zero of the plain digits is the first one that is looked at. -/
theorem digitValue?_of_isDigit {c : Char} (h : c.isDigit) :
    Text.digitValue? c = some (c.toNat - '0'.toNat) := by
  simp only [Char.isDigit, Bool.and_eq_true, decide_eq_true_eq, ge_iff_le,
    UInt32.le_iff_toNat_le] at h
  have hnear : 0x30 ≤ c.toNat ∧ c.toNat < 0x30 + 10 := ⟨h.1, Nat.lt_succ_of_le h.2⟩
  rw [Text.digitValue?, Text.decimalZeros, List.find?_cons_of_pos (by simpa using hnear)]
  rfl

/-- Both the library and the reader of digits take a number to be ten times what stands before
its last digit, and that digit. -/
theorem ofDigits_toDigits (n : Nat) :
    ofDigits ((Nat.toDigits 10 n).map fun c => c.toNat - '0'.toNat) = n := by
  rw [ofDigits, List.foldl_map]
  exact Nat.ofDigitChars_ten_toDigits

theorem Short.write?_eq {n : Nat} (h : Short n) : write? n = some (toString n) := by
  rw [write?, if_pos (show (n : Int).natAbs < writeLimit from h)]
  rfl

/-- A number that can be written is written as a row of digits that stands for it. -/
theorem Short.denotes_toDigits {n : Nat} (h : Short n) : Denotes (Nat.toDigits 10 n) n := by
  have hlength : (Nat.toDigits 10 n).length ≤ digitLimit :=
    (Nat.length_toDigits_le_iff (by decide) (by decide)).mpr h
  have hvalues : List.Forall₂ (fun c d => Text.digitValue? c = some d) (Nat.toDigits 10 n)
      ((Nat.toDigits 10 n).map fun c => c.toNat - '0'.toNat) := by
    rw [List.forall₂_map_right_iff, List.forall₂_same]
    intro c hc
    exact digitValue?_of_isDigit (Nat.isDigit_of_mem_toDigits (by decide) (by decide) hc)
  have hdenotes := Denotes.intro Nat.toDigits_ne_nil hlength hvalues
  rwa [← ofDigits_eq, ofDigits_toDigits] at hdenotes

end BinaryPoint.Decimal
