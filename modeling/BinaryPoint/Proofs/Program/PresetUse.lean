import BinaryPoint.Proofs.Program.Accepted
import BinaryPoint.Proofs.Program.Layout
import BinaryPoint.Registry.Rule

/-! # A declaration with a preset

The text `const X : name = 0`, for any name. If the name is made of the letters, digits and
underscores that the pattern for names allows, and is no keyword, the text is a program of
one declaration (`parse_presetUse`). A line break at the end of a name, which the pattern
lets pass, parts the declaration (`parse_presetUse_line_break`).
-/

namespace BinaryPoint

/-! ## Words -/

/-- The characters that the pattern for names allows behind the first one. -/
def Pattern.NamePart (c : Char) : Prop := c.isAlphanum ∨ c = '_'

namespace Piece

theorem toNat_lt_of_isAlphanum {c : Char} (h : c.isAlphanum) : c.toNat < 128 := by
  delta Char.isAlphanum Char.isAlpha Char.isUpper Char.isLower Char.isDigit at h
  simp only [Bool.or_eq_true, Bool.and_eq_true, decide_eq_true_eq, UInt32.le_iff_toNat_le] at h
  rw [Char.toNat]
  rcases h with (⟨-, h⟩ | ⟨-, h⟩) | ⟨-, h⟩
  · exact lt_of_le_of_lt h (by decide)
  · exact lt_of_le_of_lt h (by decide)
  · exact lt_of_le_of_lt h (by decide)

/-- What holds of the first 128 characters holds of those that names are made of. -/
theorem of_namePart {p : Char → Prop} (hp : ∀ n < 128, p (Char.ofNat n)) {c : Char}
    (h : Pattern.NamePart c) : p c := by
  have hc : c.toNat < 128 := by
    rcases h with h | rfl
    · exact toNat_lt_of_isAlphanum h
    · decide
  rw [← Char.ofNat_toNat c]
  exact hp c.toNat hc

theorem isWordPart_of_namePart {c : Char} (h : Pattern.NamePart c) : isWordPart c :=
  of_namePart (p := fun c => Pattern.NamePart c → isWordPart c) (by
    unfold Pattern.NamePart
    decide +kernel) h h

/-- The characters with which the pattern lets names begin start words. -/
theorem startsWord {c : Char} (h : c.isAlpha ∨ c = '_') :
    ¬ Text.isDigit c ∧ (Text.isLetter c ∨ c = '_') := by
  have hpart : Pattern.NamePart c := h.imp_left fun h => by
    rw [Char.isAlphanum, h, Bool.true_or]
  exact of_namePart (p := fun c => c.isAlpha ∨ c = '_' →
    ¬ Text.isDigit c ∧ (Text.isLetter c ∨ c = '_')) (by decide +kernel) hpart h

/-- A name that the pattern allows is one word. -/
theorem lexeme_of_accepts {name : List Char} (h : Pattern.name.accepts name) :
    Lexeme (.ofWord (.ofList name)) name := by
  cases name with
  | nil => cases h
  | cons c cs =>
    simp only [Pattern.name, Bool.and_eq_true, Bool.or_eq_true, decide_eq_true_eq,
      List.all_eq_true] at h
    obtain ⟨hdigit, hfirst⟩ := startsWord h.1
    exact .word hfirst hdigit fun d hd => isWordPart_of_namePart (h.2 d hd)

end Piece

/-! ## The tokens of the declaration -/

/-- A declaration with a preset. -/
def presetUse (name : String) : String := "const X : " ++ name ++ " = 0"

theorem toList_presetUse (name : String) :
    (presetUse name).toList =
      ['c', 'o', 'n', 's', 't', ' ', 'X', ' ', ':', ' '] ++ (name.toList ++ [' ', '=', ' ', '0']) := by
  simp only [presetUse, String.toList_append, List.append_assoc]
  rfl

/-- The tokens before the format and the format itself, in front of what may stand behind. -/
theorem laidOut_declHead {name rest : List Char} (h : Pattern.name.accepts name)
    {row : List (TokenKind × String)} (hbehind : Piece.Delimited rest) (hrest : LaidOut true row rest) :
    LaidOut false
      ((.const, "const") :: (.name, "X") :: (.colon, ":") :: (.ofWord (.ofList name), .ofList name) ::
        row)
      (['c', 'o', 'n', 's', 't', ' ', 'X', ' ', ':', ' '] ++ (name ++ rest)) := by
  have hword := Piece.lexeme_of_accepts h
  have hconst : Piece.Lexeme .const ['c', 'o', 'n', 's', 't'] :=
    Piece.lexeme_of_accepts (show Pattern.name.accepts ['c', 'o', 'n', 's', 't'] by decide)
  have hname : Piece.Lexeme .name ['X'] :=
    Piece.lexeme_of_accepts (show Pattern.name.accepts ['X'] by decide)
  have hend : ∀ rest, Piece.Delimited (' ' :: rest) := by
    rintro _ _ ⟨rfl⟩
    decide
  have hblank : ' ' ∈ [' ', '\t', '\r'] := by decide
  cases name with
  | nil => cases h
  | cons c cs =>
    -- from the end of the row to its front
    have hformat : LaidOut true _ _ := .lexeme hword hbehind hrest
    have hcolon : LaidOut true _ (':' :: _) := .mark rfl (.blank hblank hformat)
    have hX : LaidOut true _ _ := .lexeme hname (hend _) (.blank hblank hcolon)
    exact .lexeme hconst (hend _) (.blank hblank hX)

/-- The tokens behind the format. -/
theorem laidOut_declTail {filled : Bool} :
    LaidOut filled [(.equals, "="), (.integer, "0")] [' ', '=', ' ', '0'] := by
  have hdigit : Piece.LexDigit '0' := by decide +kernel
  have hzero : Piece.Lexeme .integer ['0'] := .integer (List.forall_mem_singleton.mpr hdigit)
  exact .blank (by decide) (.mark rfl (.blank (by decide) (.lexeme hzero nofun .done)))

/-- The text has no diagnostics, and its tokens are those of a declaration with a name for a
format if the name is no keyword. -/
theorem tokens_presetUse {name : String} (h : Pattern.name.accepts name.toList) (file : String) :
    (Lexed.ofText (presetUse name) file).diagnostics = [] ∧
      (Lexed.ofText (presetUse name) file).tokens.map Token.spelling =
        [ (.const, "const"), (.name, "X"), (.colon, ":"), (.ofWord name, name), (.equals, "="),
          (.integer, "0") ] := by
  have hlaid := laidOut_declHead h (by rintro _ ⟨rfl⟩; decide) laidOut_declTail
  rw [String.ofList_toList, ← toList_presetUse] at hlaid
  exact (hlaid.tokens_eq file {}).symm

/-- What a declaration with a preset is parsed to. -/
def presetDecl (name : String) (value format first : Location) : Decl :=
  ⟨"X", .integer 0 (some value), some (.preset name (some format)), none, some first⟩

/-- If the name is no keyword, the text is a program of one declaration. -/
theorem parse_presetUse {name : String} (h : Pattern.name.accepts name.toList)
    (hword : TokenKind.ofWord name = .name) (file : String) :
    ∃ p value format first, Program.parse (presetUse name) file = .ok (p, []) ∧
      p.statements = [presetDecl name value format first] := by
  obtain ⟨hlex, htokens⟩ := tokens_presetUse h file
  rw [hword] at htokens
  simp only [List.map_eq_cons_iff, List.map_eq_nil_iff, Token.spelling, Prod.mk.injEq] at htokens
  -- there are six tokens, the last one of which is zero
  obtain ⟨t₁, _, hrow, ⟨h₁, -⟩, t₂, _, rfl, ⟨h₂, hX⟩, t₃, _, rfl, ⟨h₃, -⟩, t₄, _, rfl, ⟨h₄, hname⟩,
    t₅, _, rfl, ⟨h₅, -⟩, t₆, _, rfl, ⟨h₆, hzero⟩, rfl⟩ := htokens
  have hread : Decimal.readDigits t₆.lexeme.toList = .ok 0 := by
    rw [hzero]
    exact eq_ok_of_toOption (by decide +kernel)
  have hnatural : t₆.natural = 0 := by
    rw [Token.natural, hread]
    rfl
  have hconverts : ∀ t ∈ [t₁, t₂, t₃, t₄, t₅, t₆], t.Converts := by
    simp only [List.forall_mem_cons, List.not_mem_nil, false_imp_iff, implies_true, and_true]
    refine ⟨Token.converts_of_plain (by decide) h₁, Token.converts_of_plain (by decide) h₂,
      Token.converts_of_plain (by decide) h₃, Token.converts_of_plain (by decide) h₄,
      Token.converts_of_plain (by decide) h₅, fun _ => ?_, fun hreal => ?_⟩
    · rw [hnatural, hread]
    · rw [h₆] at hreal
      cases hreal
  -- by the grammar they are the declaration, and the declaration is all of the program
  have hdecl : Decl.Derives [t₁, t₂, t₃, t₄, t₅, t₆] (presetDecl name t₆.place t₄.place t₁.place) := by
    have hvalue : Decl.DerivesValue [t₆] (.integer t₆.natural (some t₆.place)) :=
      .scalar (.term (.factor (.operand (.integer h₆))))
    have h := Decl.Derives.intro h₁ h₂ (.present h₃ (.preset h₄)) h₅ hvalue .absent
    rwa [hnatural, hX, hname] at h
  generalize hlexed : Lexed.ofText (presetUse name) file = lexed at hlex hrow
  have hderives : Program.Derives lexed.row none [presetDecl name t₆.place t₄.place t₁.place] := by
    have hbreaks : Breaks [] := List.forall_mem_nil _
    have h : Program.Derives
        ([] ++ ([] ++ ([] ++ (([t₁, t₂, t₃, t₄, t₅, t₆] ++ []) ++ ([] ++ [lexed.endToken]))))) none
        [presetDecl name t₆.place t₄.place t₁.place] :=
      .intro hbreaks .absent hbreaks (.some hdecl .done) hbreaks rfl
    rw [Lexed.row, hrow]
    exact h
  have hstream : Program.ofStream (.ofLexed lexed) = _ :=
    Program.ofStream_of_derives (by rwa [Stream.ofLexed, hrow]) hderives
  exact ⟨_, _, _, _, Program.parse_eq_ok.mpr ⟨[], hlexed ▸ hstream, by rw [hlexed, hlex]; rfl⟩, rfl⟩

/-! ## A name with a line break -/

theorem toList_presetUse_line_break (name : String) :
    (presetUse (name ++ "\n")).toList =
      ['c', 'o', 'n', 's', 't', ' ', 'X', ' ', ':', ' '] ++
        (name.toList ++ '\n' :: [' ', '=', ' ', '0']) := by
  rw [toList_presetUse, String.toList_append, List.append_assoc]
  rfl

theorem tokens_presetUse_line_break {name : String} (h : Pattern.name.accepts name.toList)
    (file : String) :
    (Lexed.ofText (presetUse (name ++ "\n")) file).tokens.map Token.spelling =
      [ (.const, "const"), (.name, "X"), (.colon, ":"), (.ofWord name, name), (.newline, "\\n"),
        (.equals, "="), (.integer, "0") ] := by
  have hlaid := laidOut_declHead h (by rintro _ ⟨rfl⟩; decide) (.lineEnd laidOut_declTail)
  rw [String.ofList_toList, ← toList_presetUse_line_break] at hlaid
  exact (hlaid.tokens_eq file {}).1

/-- A line break where an equals sign should stand parts the declaration: whatever word is before
it, there is something wrong with either line. -/
theorem ofStream_broken {kind : TokenKind}
    (hkind : kind ∈ [.program, .const, .within, .sfix, .ufix, .name])
    (l₁ l₂ l₃ l₄ l₅ l₆ l₇ : String) (p₁ p₂ p₃ p₄ p₅ p₆ p₇ : Location) (e : Token) :
    ∃ p m m', Program.ofStream
      ⟨[⟨.const, l₁, p₁⟩, ⟨.name, l₂, p₂⟩, ⟨.colon, l₃, p₃⟩, ⟨kind, l₄, p₄⟩, ⟨.newline, l₅, p₅⟩,
        ⟨.equals, l₆, p₆⟩, ⟨.integer, l₇, p₇⟩], e⟩ = .ok (p, [m, m']) := by
  simp only [List.mem_cons, List.not_mem_nil, or_false] at hkind
  rcases hkind with rfl | rfl | rfl | rfl | rfl | rfl <;> exact ⟨_, _, _, rfl⟩

/-- A name with a line break at its end cannot be used as a format. -/
theorem parse_presetUse_line_break {name : String} (h : Pattern.name.accepts name.toList)
    (file : String) :
    ∃ p found, Program.parse (presetUse (name ++ "\n")) file = .ok (p, found) ∧ found ≠ [] := by
  have htokens := tokens_presetUse_line_break h file
  generalize hlexed : Lexed.ofText (presetUse (name ++ "\n")) file = lexed at htokens
  simp only [List.map_eq_cons_iff, List.map_eq_nil_iff, Token.spelling, Prod.mk.injEq] at htokens
  obtain ⟨⟨_, l₁, p₁⟩, _, hrow, ⟨rfl, -⟩, ⟨_, l₂, p₂⟩, _, rfl, ⟨rfl, -⟩, ⟨_, l₃, p₃⟩, _, rfl, ⟨rfl, -⟩,
    ⟨_, l₄, p₄⟩, _, rfl, ⟨rfl, -⟩, ⟨_, l₅, p₅⟩, _, rfl, ⟨rfl, -⟩, ⟨_, l₆, p₆⟩, _, rfl, ⟨rfl, -⟩,
    ⟨_, l₇, p₇⟩, _, rfl, ⟨rfl, -⟩, rfl⟩ := htokens
  obtain ⟨p, m, m', hstream⟩ := ofStream_broken (Piece.ofWord_cases name) l₁ l₂ l₃ l₄ l₅ l₆ l₇ p₁ p₂
    p₃ p₄ p₅ p₆ p₇ lexed.endToken
  rw [← hrow] at hstream
  exact ⟨p, _, Program.parse_eq_ok.mpr ⟨_, hlexed ▸ hstream, rfl⟩, by simp⟩

end BinaryPoint
