import BinaryPoint.Binary64.Literal
import Mathlib.Data.List.TakeWhile

/-! # Texts that are numerals

A row of digits, maybe with a fraction and an exponent, is read as a number if its digits
are decimal digits, of whatever script. `IsNumeral` leaves open what counts as a digit, so
that it speaks of the lexer's digits as well as of the reader's.

* `IsNumeral.mono`: a numeral stays one if its digits count for another reader;
* `readNumber_of_isNumeral`: a numeral of decimal digits is read.
-/

namespace BinaryPoint.Decimal

/-- A fraction: nothing, or a point and digits. -/
def IsFraction (digit : Char → Prop) (cs : List Char) : Prop :=
  cs = [] ∨ ∃ d ds, cs = '.' :: d :: ds ∧ ∀ c ∈ d :: ds, digit c

/-- An exponent: nothing, or its mark, maybe a sign, and digits. -/
def IsExponent (digit : Char → Prop) (cs : List Char) : Prop :=
  cs = [] ∨ ∃ mark sign d ds, cs = mark :: (sign ++ d :: ds) ∧ (mark = 'e' ∨ mark = 'E') ∧
    (sign = [] ∨ sign = ['+'] ∨ sign = ['-']) ∧ ∀ c ∈ d :: ds, digit c

/-- A numeral without a sign. -/
inductive IsNumeral (digit : Char → Prop) : List Char → Prop
  | intro {d : Char} {ds fraction exponent : List Char} (hwhole : ∀ c ∈ d :: ds, digit c)
      (hfraction : IsFraction digit fraction) (hexponent : IsExponent digit exponent) :
      IsNumeral digit (d :: ds ++ (fraction ++ exponent))

/-- Digits that count for one reader and for another. -/
theorem IsNumeral.mono {digit digit' : Char → Prop} {cs : List Char}
    (h : ∀ c ∈ cs, digit c → digit' c) (hcs : IsNumeral digit cs) : IsNumeral digit' cs := by
  obtain ⟨hwhole, hfraction, hexponent⟩ := hcs
  simp only [List.mem_append] at h
  refine ⟨fun c hc => h c (.inl hc) (hwhole c hc), ?_, ?_⟩
  · rcases hfraction with rfl | ⟨d, ds, rfl, hds⟩
    · exact .inl rfl
    · exact .inr ⟨d, ds, rfl, fun c hc => h c (.inr (.inl (.tail _ hc))) (hds c hc)⟩
  · rcases hexponent with rfl | ⟨mark, sign, d, ds, rfl, hmark, hsign, hds⟩
    · exact .inl rfl
    · refine .inr ⟨mark, sign, d, ds, rfl, hmark, hsign, fun c hc => h c ?_ (hds c hc)⟩
      exact .inr (.inr (.tail _ (List.mem_append_right _ hc)))

/-! ## Decimal digits -/

/-- A digit to a reader of numbers. -/
def IsDecimal (c : Char) : Prop := (Text.digitValue? c).isSome

instance (c : Char) : Decidable (IsDecimal c) :=
  inferInstanceAs (Decidable ((Text.digitValue? c).isSome = true))

/-- A decimal digit is one of ten that start at a zero. -/
theorem IsDecimal.near_zero {c : Char} (h : IsDecimal c) :
    ∃ z ∈ Text.decimalZeros, ∃ k < 10, c.toNat = z + k := by
  rw [IsDecimal, Text.digitValue?, Option.isSome_map, List.find?_isSome] at h
  obtain ⟨z, hz, hc⟩ := h
  simp only [Bool.and_eq_true, decide_eq_true_eq] at hc
  exact ⟨z, hz, c.toNat - z, by omega, by omega⟩

/-- No decimal digit is white space. -/
theorem IsDecimal.not_isBlank {c : Char} (h : IsDecimal c) : Text.isBlank c = false := by
  have hzeros : ∀ z ∈ Text.decimalZeros, ∀ k < 10,
      Text.memberAt (z + k) false Text.blankBounds = false := by decide +kernel
  obtain ⟨z, hz, k, hk, hc⟩ := h.near_zero
  rw [Text.isBlank, hc]
  exact hzeros z hz k hk

/-! ## Reading -/

theorem trimBlanks_of_forall {cs : List Char} (h : ∀ c ∈ cs, Text.isBlank c = false) :
    Text.trimBlanks cs = cs := by
  have hkeep : ∀ cs : List Char, (∀ c ∈ cs, Text.isBlank c = false) →
      cs.dropWhile Text.isBlank = cs := by
    rintro (_ | ⟨c, cs⟩) h
    · rfl
    · exact List.dropWhile_cons_of_neg (by simp [h c (.head _)])
  rw [Text.trimBlanks, hkeep cs h, hkeep cs.reverse fun c hc => h c (List.mem_reverse.mp hc),
    List.reverse_reverse]

/-- What follows a row of digits does not go on with it. -/
def EndsDigits (rest : List Char) : Prop :=
  ∀ c ∈ rest.head?, c ≠ '_' ∧ ¬ IsDecimal c

theorem EndsDigits.nil : EndsDigits [] := nofun

theorem EndsDigits.cons {c : Char} {cs : List Char} (h : c ≠ '_') (h' : ¬ IsDecimal c) :
    EndsDigits (c :: cs) := by
  rintro _ ⟨rfl⟩
  exact ⟨h, h'⟩

/-- An underscore is no digit. -/
theorem IsDecimal.ne_underscore {c : Char} (h : IsDecimal c) : c ≠ '_' := by
  rintro rfl
  revert h
  decide

theorem takeMoreDigits_append {rest : List Char} (hrest : EndsDigits rest) :
    ∀ ds : List Char, (∀ c ∈ ds, IsDecimal c) →
      ∃ values, takeMoreDigits (ds ++ rest) = (values, rest)
  | [], _ => by
    rcases rest with _ | ⟨c, rest⟩
    · exact ⟨[], rfl⟩
    · obtain ⟨hscore, hdigit⟩ := hrest c rfl
      rw [IsDecimal, Option.not_isSome_iff_eq_none] at hdigit
      refine ⟨[], ?_⟩
      rw [List.nil_append, takeMoreDigits.eq_3 c rest (fun _ _ h _ => hscore h), hdigit]
  | d :: ds, hds => by
    obtain ⟨hd, hmore⟩ := List.forall_mem_cons.mp hds
    obtain ⟨values, hvalues⟩ := takeMoreDigits_append hrest ds hmore
    obtain ⟨value, hvalue⟩ := Option.isSome_iff_exists.mp hd
    refine ⟨value :: values, ?_⟩
    rw [List.cons_append, takeMoreDigits.eq_3 d _ (fun _ _ h _ => hd.ne_underscore h), hvalue]
    simp only [hvalues]

theorem takeDigits_append {d : Char} {ds rest : List Char} (hds : ∀ c ∈ d :: ds, IsDecimal c)
    (hrest : EndsDigits rest) :
    ∃ value values, takeDigits (d :: ds ++ rest) = (value :: values, rest) := by
  obtain ⟨hd, hmore⟩ := List.forall_mem_cons.mp hds
  obtain ⟨value, hvalue⟩ := Option.isSome_iff_exists.mp hd
  obtain ⟨values, hvalues⟩ := takeMoreDigits_append hrest ds hmore
  refine ⟨value, values, ?_⟩
  rw [List.cons_append, takeDigits, hvalue]
  simp only [hvalues]

/-- Neither a fraction nor an exponent starts with a digit or an underscore. -/
theorem IsExponent.endsDigits {cs : List Char} (h : IsExponent IsDecimal cs) :
    EndsDigits cs := by
  rcases h with rfl | ⟨mark, sign, d, ds, rfl, rfl | rfl, -, -⟩
  · exact .nil
  · exact .cons (by decide) (by decide)
  · exact .cons (by decide) (by decide)

theorem IsFraction.endsDigits {cs rest : List Char} (h : IsFraction IsDecimal cs)
    (hrest : EndsDigits rest) : EndsDigits (cs ++ rest) := by
  rcases h with rfl | ⟨d, ds, rfl, -⟩
  · exact hrest
  · exact .cons (by decide) (by decide)

theorem takeFraction_append {cs rest : List Char} (h : IsFraction IsDecimal cs)
    (hrest : IsExponent IsDecimal rest) :
    ∃ values, takeFraction (cs ++ rest) = (values, rest) := by
  rcases h with rfl | ⟨d, ds, rfl, hds⟩
  · rcases hrest with rfl | ⟨mark, sign, d, ds, rfl, rfl | rfl, -, -⟩
    all_goals exact ⟨[], rfl⟩
  · obtain ⟨value, values, hvalues⟩ := takeDigits_append hds hrest.endsDigits
    exact ⟨value :: values, hvalues⟩

/-- A sign in front of digits is told apart from them. -/
theorem takeSign_append {sign : List Char} {d : Char} (ds : List Char) (hd : IsDecimal d)
    (hsign : sign = [] ∨ sign = ['+'] ∨ sign = ['-']) :
    ∃ negative, takeSign (sign ++ d :: ds) = (negative, d :: ds) := by
  rcases hsign with rfl | rfl | rfl
  · have hplus : d ≠ '+' := by rintro rfl; revert hd; decide
    have hminus : d ≠ '-' := by rintro rfl; revert hd; decide
    refine ⟨false, ?_⟩
    rw [List.nil_append, takeSign.eq_3 _ (fun _ h => hminus (List.cons.inj h).1)
      (fun _ h => hplus (List.cons.inj h).1)]
  · exact ⟨false, rfl⟩
  · exact ⟨true, rfl⟩

theorem takeExponent_of_isExponent {cs : List Char} (h : IsExponent IsDecimal cs) :
    ∃ exponent, takeExponent cs = some (exponent, []) := by
  rcases h with rfl | ⟨mark, sign, d, ds, rfl, hmark, hsign, hds⟩
  · exact ⟨0, rfl⟩
  · obtain ⟨negative, hnegative⟩ := takeSign_append ds (hds d (.head _)) hsign
    obtain ⟨value, values, hvalues⟩ := takeDigits_append hds .nil
    rw [List.append_nil] at hvalues
    rw [takeExponent, if_pos (by simpa using hmark), hnegative]
    simp only [hvalues]
    exact ⟨_, rfl⟩

theorem readUnsigned_of_isNumeral {negative : Bool} {cs : List Char}
    (h : IsNumeral IsDecimal cs) : (readUnsigned negative cs).isSome := by
  obtain ⟨hwhole, hfraction, hexponent⟩ := h
  obtain ⟨value, values, hvalues⟩ :=
    takeDigits_append hwhole (hfraction.endsDigits hexponent.endsDigits)
  obtain ⟨parts, hparts⟩ := takeFraction_append hfraction hexponent
  obtain ⟨exponent, hexp⟩ := takeExponent_of_isExponent hexponent
  unfold readUnsigned
  rw [hvalues]
  simp only [hparts, hexp]
  rfl

/-- A character of a numeral is a digit, the point, the mark of an exponent or a sign. -/
theorem IsNumeral.mem {digit : Char → Prop} {cs : List Char} (h : IsNumeral digit cs) {c : Char}
    (hc : c ∈ cs) : digit c ∨ c ∈ ['.', 'e', 'E', '+', '-'] := by
  obtain ⟨hwhole, hfraction, hexponent⟩ := h
  rcases List.mem_append.mp hc with hc | hc
  · exact .inl (hwhole c hc)
  rcases List.mem_append.mp hc with hc | hc
  · -- in the fraction: the point, or a digit behind it
    rcases hfraction with rfl | ⟨d, ds, rfl, hds⟩
    · cases hc
    rcases List.mem_cons.mp hc with rfl | hc
    · exact .inr (.head _)
    · exact .inl (hds c hc)
  · -- in the exponent: its mark, its sign or a digit
    rcases hexponent with rfl | ⟨mark, sign, d, ds, rfl, hmark, hsign, hds⟩
    · cases hc
    rcases List.mem_cons.mp hc with rfl | hc
    · rcases hmark with rfl | rfl <;> simp
    rcases List.mem_append.mp hc with hc | hc
    · rcases hsign with rfl | rfl | rfl <;> simp_all
    · exact .inl (hds c hc)

/-- A numeral of decimal digits is read as a number. -/
theorem readNumber_of_isNumeral {s : String} (h : IsNumeral IsDecimal s.toList) :
    (readNumber s).isSome := by
  have hmarks : ['.', 'e', 'E', '+', '-'].all (! Text.isBlank ·) := by decide +kernel
  -- no character of a numeral is blank, so nothing is trimmed
  have hblank : ∀ c ∈ s.toList, Text.isBlank c = false := fun c hc =>
    (h.mem hc).elim IsDecimal.not_isBlank fun hmark => by
      simpa using List.all_eq_true.mp hmarks c hmark
  -- nor does a numeral start with a sign
  have hsign : ∃ negative, takeSign s.toList = (negative, s.toList) := by
    generalize s.toList = cs at h
    obtain ⟨hwhole, -, -⟩ := h
    exact takeSign_append _ (hwhole _ (.head _)) (.inl rfl)
  obtain ⟨negative, hnegative⟩ := hsign
  rw [readNumber, trimBlanks_of_forall hblank, hnegative]
  simp only
  -- the words for infinities and for no number come first
  split
  · rfl
  split
  · rfl
  rw [Option.isSome_map]
  exact readUnsigned_of_isNumeral h

/-- A numeral of decimal digits denotes a double. -/
theorem ofText?_of_isNumeral {s : String} (h : IsNumeral IsDecimal s.toList) :
    (Binary64.ofText? s).isSome := by
  rw [Binary64.ofText?, Option.isSome_map]
  exact readNumber_of_isNumeral h

end BinaryPoint.Decimal
