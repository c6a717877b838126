import BinaryPoint.Proofs.Decimal.Integer
import BinaryPoint.Proofs.Format

/-! # The spellings of a format

A format key is a row of pieces with white space allowed before each of them and at the end. No
piece goes on into the white space or the piece behind it, so each step of the reader takes the
piece that stands there, and keys are read by their grammar.

* `Spells`: the grammar of keys;
* `splitKey_eq_some_iff`, `parse_eq_ok_iff`: a text is read as a format just if it spells it;
* `parse_key`: so reading undoes writing, the written key being a spelling without white space;
* `key_reading`: both directions, with the uniqueness of what is written.
-/

namespace BinaryPoint.Format

open Decimal (Denotes IsDecimal Short)

variable {f : Format} {cs rest : List Char}

/-! ## White space -/

/-- A piece of a key with white space before it. -/
def Padded (piece cs : List Char) : Prop := ∃ ws, (∀ c ∈ ws, Text.isBlank c) ∧ cs = ws ++ piece

/-- What stands behind the white space at the start of a text. -/
theorem dropWhile_isBlank_eq_iff (hrest : ∀ c ∈ rest.head?, Text.isBlank c = false) :
    cs.dropWhile Text.isBlank = rest ↔ Padded rest cs := by
  constructor
  · rintro rfl
    exact ⟨cs.takeWhile Text.isBlank, fun _ => List.mem_takeWhile_imp,
      List.takeWhile_append_dropWhile.symm⟩
  · rintro ⟨ws, hws, rfl⟩
    rw [List.dropWhile_append_of_pos hws]
    cases rest with
    | nil => rfl
    | cons c rest => exact List.dropWhile_cons_of_neg (by simp [hrest c rfl])

/-- White space before a text is white space before its first piece. -/
theorem padded_append_iff {piece : List Char} :
    Padded (piece ++ rest) cs ↔ ∃ p, Padded piece p ∧ cs = p ++ rest := by
  constructor
  · rintro ⟨ws, hws, rfl⟩
    exact ⟨ws ++ piece, ⟨ws, hws, rfl⟩, (List.append_assoc ws piece rest).symm⟩
  · rintro ⟨_, ⟨ws, hws, rfl⟩, rfl⟩
    exact ⟨ws, hws, List.append_assoc ws piece rest⟩

theorem padded_nil_iff : Padded [] cs ↔ cs.all Text.isBlank := by
  simp [Padded]

/-- No number goes on into white space or a mark. -/
theorem Padded.not_isDecimal {mark : Char} {p : List Char} (hmark : ¬ IsDecimal mark)
    (h : Padded [mark] p) : ∀ c ∈ (p ++ rest).head?, ¬ IsDecimal c := by
  obtain ⟨ws, hws, rfl⟩ := h
  rcases ws with _ | ⟨w, ws⟩
  · rintro _ ⟨⟩
    exact hmark
  · rintro _ ⟨⟩ hdecimal
    have hblank := hws w (.head _)
    rw [hdecimal.not_isBlank] at hblank
    cases hblank

/-! ## The pieces of a key -/

/-- A mark is taken where it stands. -/
theorem skipMark_eq_some_iff {mark : Char} (hmark : Text.isBlank mark = false) :
    skipMark mark cs = some rest ↔ ∃ p, Padded [mark] p ∧ cs = p ++ rest := by
  have hhead : ∀ c ∈ (mark :: rest).head?, Text.isBlank c = false := by
    rintro _ ⟨⟩
    exact hmark
  rw [← padded_append_iff, List.singleton_append, ← dropWhile_isBlank_eq_iff hhead, skipMark]
  split
  · next c cs' hcs =>
    rw [hcs, List.cons.injEq]
    by_cases hc : c = mark <;> simp [hc]
  · next hcs => simp [hcs]

/-- The word of a key starts with no white space. -/
theorem isBlank_of_mem_head?_word (signed : Bool) :
    ∀ c ∈ ((word signed).toList ++ rest).head?, Text.isBlank c = false := by
  have hstarts : ['s', 'u'].all (! Text.isBlank ·) := by decide +kernel
  have hblank : ∀ c ∈ ['s', 'u'], Text.isBlank c = false := fun c h => by
    simpa using List.all_eq_true.mp hstarts c h
  cases signed
  · rintro _ ⟨⟩
    exact hblank 'u' (by simp)
  · rintro _ ⟨⟩
    exact hblank 's' (by simp)

theorem takeWord_eq_some_iff {signed : Bool} :
    takeWord cs = some (signed, rest) ↔
      ∃ p, Padded (word signed).toList p ∧ cs = p ++ rest := by
  rw [← padded_append_iff, ← dropWhile_isBlank_eq_iff (isBlank_of_mem_head?_word signed), takeWord]
  generalize cs.dropWhile Text.isBlank = text
  constructor
  · intro h
    split at h <;> cases h <;> rfl
  · rintro rfl
    cases signed <;> rfl

/-- A number is taken whole: it ends where no digit follows. -/
theorem takeWidth_eq_some_iff {ds : List Char} :
    takeWidth cs = some (ds, rest) ↔
      (ds ≠ [] ∧ ∀ c ∈ ds, IsDecimal c) ∧ (∀ c ∈ rest.head?, ¬ IsDecimal c) ∧
        ∃ p, Padded ds p ∧ cs = p ++ rest := by
  rw [← padded_append_iff, takeWidth]
  constructor
  · intro h
    -- the digits and the rest are what the reader cuts the text into
    have hcut := List.takeWhile_append_dropWhile (p := fun c => (Text.digitValue? c).isSome)
      (l := cs.dropWhile Text.isBlank)
    have hstop := List.head?_dropWhile_not (fun c => (Text.digitValue? c).isSome)
      (cs.dropWhile Text.isBlank)
    split at h
    · cases h
    · next hne =>
      obtain ⟨rfl, rfl⟩ := Prod.mk.inj (Option.some.inj h)
      refine ⟨⟨hne, fun c hc => ?_⟩, fun c hc hdecimal => ?_, ?_⟩
      · exact List.mem_takeWhile_imp (p := fun c => (Text.digitValue? c).isSome) hc
      · rw [Option.mem_def.mp hc] at hstop
        exact Bool.eq_false_iff.mp hstop hdecimal
      · rw [hcut]
        exact ⟨_, fun _ => List.mem_takeWhile_imp, List.takeWhile_append_dropWhile.symm⟩
  · rintro ⟨⟨hne, hds⟩, hrest, hpadded⟩
    have hhead : ∀ c ∈ (ds ++ rest).head?, Text.isBlank c = false := by
      obtain ⟨d, ds, rfl⟩ := List.exists_cons_of_ne_nil hne
      rintro _ ⟨⟩
      exact (hds d (.head _)).not_isBlank
    have htaken : rest.takeWhile (fun c => (Text.digitValue? c).isSome) = [] ∧
        rest.dropWhile (fun c => (Text.digitValue? c).isSome) = rest := by
      cases rest with
      | nil => exact ⟨rfl, rfl⟩
      | cons c rest =>
        have hc := hrest c rfl
        exact ⟨List.takeWhile_cons_of_neg hc, List.dropWhile_cons_of_neg hc⟩
    rw [(dropWhile_isBlank_eq_iff hhead).mpr hpadded, List.takeWhile_append_of_pos hds,
      List.dropWhile_append_of_pos hds, htaken.1, htaken.2, List.append_nil]
    obtain ⟨d, ds, rfl⟩ := List.exists_cons_of_ne_nil hne
    rfl

/-! ## The whole key -/

/-- A key is cut into its pieces: the word for the sign and the marks stand as they are, and two
rows of digits in between. -/
theorem splitKey_eq_some_iff {signed : Bool} {i r : List Char} :
    splitKey cs = some (signed, i, r) ↔
      (i ≠ [] ∧ ∀ c ∈ i, IsDecimal c) ∧ (r ≠ [] ∧ ∀ c ∈ r, IsDecimal c) ∧
        ∃ pieces, List.Forall₂ Padded [(word signed).toList, ['<'], i, [','], r, ['>'], []] pieces ∧
          cs = pieces.flatten := by
  -- a mark is neither blank nor a digit, so that neither blanks nor digits run on into it
  have hmarks : ['<', ',', '>'].all (! Text.isBlank ·) := by decide +kernel
  have hblank : ∀ mark ∈ ['<', ',', '>'], Text.isBlank mark = false := fun mark h => by
    simpa using List.all_eq_true.mp hmarks mark h
  have hcomma : ¬ IsDecimal ',' := by decide +kernel
  have hclose : ¬ IsDecimal '>' := by decide +kernel
  simp only [splitKey, Option.bind_eq_bind, Option.bind_eq_some_iff, Prod.exists,
    Option.ite_none_right_eq_some, Option.some.injEq, Prod.mk.injEq, takeWord_eq_some_iff,
    skipMark_eq_some_iff (hblank '<' (by simp)), skipMark_eq_some_iff (hblank ',' (by simp)),
    skipMark_eq_some_iff (hblank '>' (by simp)), takeWidth_eq_some_iff]
  constructor
  · -- the pieces that were taken, in their order
    rintro ⟨signed, _, ⟨p₀, h₀, rfl⟩, _, ⟨p₁, h₁, rfl⟩, i, _, ⟨hi, -, p₂, h₂, rfl⟩, _,
      ⟨p₃, h₃, rfl⟩, r, _, ⟨hr, -, p₄, h₄, rfl⟩, p₆, ⟨p₅, h₅, rfl⟩, h₆, rfl, rfl, rfl⟩
    refine ⟨hi, hr, [p₀, p₁, p₂, p₃, p₄, p₅, p₆], ?_, by simp⟩
    exact .cons h₀ (.cons h₁ (.cons h₂ (.cons h₃ (.cons h₄ (.cons h₅
      (.cons (padded_nil_iff.mpr h₆) .nil))))))
  · -- and seven pieces are taken one after the other
    rintro ⟨hi, hr, pieces, hpieces, rfl⟩
    obtain _ | ⟨h₀, _ | ⟨h₁, _ | ⟨h₂, _ | ⟨h₃, _ | ⟨h₄, _ | ⟨h₅, _ | ⟨h₆, _ | _⟩⟩⟩⟩⟩⟩⟩ := hpieces
    exact ⟨signed, _, ⟨_, h₀, rfl⟩, _, ⟨_, h₁, rfl⟩, i, _, ⟨hi, h₃.not_isDecimal hcomma, _, h₂, rfl⟩,
      _, ⟨_, h₃, rfl⟩, r, _, ⟨hr, h₅.not_isDecimal hclose, _, h₄, rfl⟩, _, ⟨_, h₅, rfl⟩,
      padded_nil_iff.mp (by simpa using h₆), rfl, rfl, rfl⟩

/-- The spellings of a format: the word for its sign and both widths, the marks of a key between
them, and white space before each of these pieces and at the end. -/
inductive Spells (f : Format) : List Char → Prop
  | intro {i r : List Char} {pieces : List (List Char)} (hinteger : Denotes i f.integerBits)
      (hfraction : Denotes r f.fractionalBits)
      (hpieces : List.Forall₂ Padded
        [(word f.signed).toList, ['<'], i, [','], r, ['>'], []] pieces) :
      Spells f pieces.flatten

theorem readWidth_eq_ok_iff {ds : List Char} {n : Nat} :
    readWidth ds = .ok n ↔ Denotes ds n := by
  rw [← Decimal.readDigits_eq_ok_iff, readWidth]
  split <;> simp [*]

/-- The widths of a format that is spelled out are short enough to be written. -/
theorem Spells.writable (h : f.Spells cs) : f.Writable := by
  obtain ⟨hinteger, hfraction, -⟩ := h
  exact ⟨hinteger.short, hfraction.short⟩

/-- A text is read as a format just if it spells it. -/
theorem parse_eq_ok_iff {s : String} : parse s = .ok f ↔ f.Spells s.toList := by
  -- how a fault is worded does not matter here
  have hread : parse s = .ok f ↔ ofKey s = .ok f := by
    rw [parse]
    split <;> simp [*]
  rw [hread, ofKey]
  constructor
  · intro h
    split at h
    · cases h
    · next signed i r hsplit =>
      simp only [bind_eq_ok, readWidth_eq_ok_iff, Except.ok.injEq] at h
      obtain ⟨_, hi, _, hr, rfl⟩ := h
      obtain ⟨-, -, pieces, hpieces, hcs⟩ := splitKey_eq_some_iff.mp hsplit
      rw [hcs]
      exact .intro hi hr hpieces
  · intro h
    generalize hcs : s.toList = cs at h ⊢
    obtain @⟨i, r, pieces, hi, hr, hpieces⟩ := h
    rw [splitKey_eq_some_iff.mpr ⟨hi.isDecimal, hr.isDecimal, pieces, hpieces, rfl⟩]
    dsimp only
    rw [readWidth_eq_ok_iff.mpr hi, ok_bind, readWidth_eq_ok_iff.mpr hr]
    rfl

/-! ## Keys that were written -/

theorem toList_key (f : Format) :
    f.key.toList = [(word f.signed).toList, ['<'], Nat.toDigits 10 f.integerBits, [','],
      Nat.toDigits 10 f.fractionalBits, ['>'], []].flatten := by
  simp only [key, String.toList_append, Nat.toString_eq_ofList_toDigits, String.toList_ofList,
    List.flatten_cons, List.flatten_nil, List.append_nil, List.append_assoc]
  rfl

/-- A key is a spelling of its format without any white space. -/
theorem spells_key (h : f.Writable) : f.Spells f.key.toList := by
  rw [toList_key]
  refine .intro h.1.denotes_toDigits h.2.denotes_toDigits ?_
  rw [List.forall₂_same]
  exact fun piece _ => ⟨[], nofun, rfl⟩

/-- Reading the key of a format gives the format. -/
theorem parse_key (h : f.Writable) : parse f.key = .ok f := parse_eq_ok_iff.mpr (spells_key h)

theorem keyText_of_writable (h : f.Writable) : f.keyText = .ok f.key := by
  obtain ⟨hinteger, hfraction⟩ := h
  have hkey : f.key? = some f.key := by
    simp only [key?, hinteger.write?_eq, hfraction.write?_eq, Option.bind_eq_bind,
      Option.bind_some, key]
  unfold keyText
  rw [hkey]

/-- What is written of a format is its key, if both widths are short enough. -/
theorem keyText_eq_ok_iff {s : String} : f.keyText = .ok s ↔ f.Writable ∧ f.key = s := by
  constructor
  · intro h
    -- what was written has both of its widths in digits
    have hwritable : f.Writable := by
      unfold keyText key? at h
      rw [Writable, ← Decimal.exists_write?_iff, ← Decimal.exists_write?_iff]
      split at h
      · next hs =>
        simp only [Option.bind_eq_bind, Option.bind_eq_some_iff] at hs
        obtain ⟨i, hi, r, hr, -⟩ := hs
        exact ⟨⟨i, hi⟩, r, hr⟩
      · cases h
    rw [keyText_of_writable hwritable, Except.ok.injEq] at h
    exact ⟨hwritable, h⟩
  · rintro ⟨h, rfl⟩
    exact keyText_of_writable h

/-- **Keys are read as they are written, and by their grammar.** A format that can be written is
read back from its key, which no other format has. A text is read as a format just if it is one of
the spellings of that format, whose key then reads the same. -/
theorem key_reading :
    (∀ f : Format, f.Writable → ∃ key, f.keyText = .ok key ∧ parse key = .ok f) ∧
    (∀ (f g : Format) (key : String), f.keyText = .ok key → g.keyText = .ok key → f = g) ∧
    ∀ (k : String) (f : Format), (parse k = .ok f ↔ f.Spells k.toList) ∧
      (parse k = .ok f → ∃ key, f.keyText = .ok key ∧ parse key = .ok f) := by
  have hback : ∀ f : Format, f.Writable → ∃ key, f.keyText = .ok key ∧ parse key = .ok f :=
    fun f h => ⟨f.key, keyText_of_writable h, parse_key h⟩
  refine ⟨hback, fun f g key hf hg => ?_, fun k f => ⟨parse_eq_ok_iff, fun h => ?_⟩⟩
  · -- both formats are what the key reads as
    obtain ⟨hwritable, rfl⟩ := keyText_eq_ok_iff.mp hf
    obtain ⟨hwritable', hkey⟩ := keyText_eq_ok_iff.mp hg
    have hread := parse_key hwritable
    rw [← hkey, parse_key hwritable'] at hread
    exact (Except.ok.inj hread).symm
  · exact hback f (parse_eq_ok_iff.mp h).writable

/-- White space around every piece, a leading zero of another script, and a line break behind. -/
example : parse " ufix < ٠2 ,\t4 >\n" = .ok ⟨false, 2, 4⟩ :=
  eq_ok_of_toOption (by decide +kernel)

end BinaryPoint.Format
