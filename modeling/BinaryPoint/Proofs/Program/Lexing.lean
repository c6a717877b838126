import BinaryPoint.Proofs.Decimal.Numeral
import BinaryPoint.Program.Lexed
import Mathlib.Tactic.Common

/-! # What the lexer gives

* `Piece.flatten_split`: the pieces of a text join to the text;
* `Piece.Lexeme`, `Piece.lexeme_of_mem_split`: what the tokens of each kind look like;
* `Lexed.of_mem_tokens`: real literals have the shape of a numeral, with what the lexer takes
  for digits.
-/

namespace BinaryPoint

open Decimal

namespace Piece

/-- What the lexer takes for a digit. -/
def LexDigit (c : Char) : Prop := Text.isDigit c

instance (c : Char) : Decidable (LexDigit c) := inferInstanceAs (Decidable (Text.isDigit c = true))

/-! ## Pieces join to their text -/

theorem takeFraction_append (cs : List Char) :
    (takeFraction cs).1 ++ (takeFraction cs).2 = cs := by
  unfold takeFraction
  split
  · split
    · simp only [List.cons_append, List.takeWhile_append_dropWhile]
    · rfl
  · rfl

theorem takeSign_append (cs : List Char) : (takeSign cs).1 ++ (takeSign cs).2 = cs := by
  unfold takeSign
  split <;> rfl

theorem takeExponent_append (cs : List Char) :
    (takeExponent cs).1 ++ ((takeExponent cs).2.1 ++ (takeExponent cs).2.2) = cs := by
  unfold takeExponent
  split
  · rfl
  · split
    · simp only [List.cons_append, List.takeWhile_append_dropWhile, takeSign_append]
    · rfl

/-- The pieces of a number, in terms of its parts. -/
theorem takeNumber_eq (c : Char) (cs : List Char) :
    takeNumber c cs =
      let whole := c :: cs.takeWhile Text.isDigit
      let fraction := (takeFraction (cs.dropWhile Text.isDigit)).1
      let exponent := takeExponent (takeFraction (cs.dropWhile Text.isDigit)).2
      if exponent.2.1 = [] then
        (⟨.token (if fraction = [] then .integer else .real), whole ++ fraction⟩ ::
          if exponent.1 = [] then [] else [⟨.brokenExponent, exponent.1⟩], exponent.2.2)
      else ([⟨.token .real, whole ++ (fraction ++ (exponent.1 ++ exponent.2.1))⟩],
        exponent.2.2) := by
  simp only [takeNumber, List.isEmpty_iff]
  split
  · split <;> split <;> rfl
  · simp only [List.append_assoc]

theorem takeNumber_append (c : Char) (cs : List Char) :
    (takeNumber c cs).1.flatMap text ++ (takeNumber c cs).2 = c :: cs := by
  have hwhole := List.takeWhile_append_dropWhile (p := Text.isDigit) (l := cs)
  have hfraction := takeFraction_append (cs.dropWhile Text.isDigit)
  have hexponent := takeExponent_append (takeFraction (cs.dropWhile Text.isDigit)).2
  rw [takeNumber_eq]
  generalize takeExponent _ = exponent at hexponent ⊢
  dsimp only
  split
  · next hdigits =>
    -- the exponent has no digits: what there is of it is a piece of its own
    rw [hdigits, List.nil_append] at hexponent
    have hmark : (if exponent.1 = [] then [] else [Piece.mk .brokenExponent exponent.1]).flatMap
        text = exponent.1 := by
      split
      · next h => rw [h]; rfl
      · exact List.append_nil _
    rw [List.flatMap_cons, hmark]
    simp [hexponent, hfraction, hwhole]
  · simp [hexponent, hfraction, hwhole]

/-- The pieces at a character, and what follows them, are the text from the character on. -/
theorem next_append (c : Char) (cs : List Char) :
    (next c cs).1.flatMap text ++ (next c cs).2 = c :: cs := by
  unfold next
  split
  · rfl
  split
  · simp [List.takeWhile_append_dropWhile]
  split
  · rfl
  split
  · exact takeNumber_append c cs
  split
  · simp [List.takeWhile_append_dropWhile]
  split <;> rfl

/-- The pieces of a text join to the text. -/
theorem flatten_split (cs : List Char) : (split cs).flatMap text = cs := by
  induction cs using split.induct with
  | case1 => rw [split]; rfl
  | case2 c cs ih => rw [split, List.flatMap_append, ih, next_append]

/-! ## Shapes of tokens -/

theorem lexDigit_of_mem_takeWhile {cs : List Char} {c : Char}
    (h : c ∈ cs.takeWhile Text.isDigit) : LexDigit c :=
  List.mem_takeWhile_imp h

theorem isFraction_takeFraction (cs : List Char) : IsFraction LexDigit (takeFraction cs).1 := by
  unfold takeFraction
  split
  · next d cs =>
    split
    · next hd =>
      refine .inr ⟨d, cs.takeWhile Text.isDigit, rfl, ?_⟩
      exact List.forall_mem_cons.mpr ⟨hd, fun _ => lexDigit_of_mem_takeWhile⟩
    · exact .inl rfl
  · exact .inl rfl

theorem takeSign_cases (cs : List Char) :
    (takeSign cs).1 = [] ∨ (takeSign cs).1 = ['+'] ∨ (takeSign cs).1 = ['-'] := by
  unfold takeSign
  split <;> simp

/-- An exponent that has digits is in order. -/
theorem isExponent_takeExponent {cs : List Char} (h : (takeExponent cs).2.1 ≠ []) :
    IsExponent LexDigit ((takeExponent cs).1 ++ (takeExponent cs).2.1) := by
  unfold takeExponent at h ⊢
  split
  · exact .inl rfl
  · next c cs =>
    dsimp only at h ⊢
    split
    · next hc =>
      -- a mark that digits follow, with a sign or without one
      rw [if_pos hc] at h
      obtain ⟨d, ds, hds⟩ := List.exists_cons_of_ne_nil h
      refine .inr ⟨c, (takeSign cs).1, d, ds, ?_, by simpa using hc, takeSign_cases cs, ?_⟩
      · dsimp only at hds ⊢
        rw [hds, List.cons_append]
      · intro x hx
        rw [← hds] at hx
        exact lexDigit_of_mem_takeWhile hx
    · exact .inl rfl

theorem ofWord_cases (w : String) :
    TokenKind.ofWord w ∈ [.program, .const, .within, .sfix, .ufix, .name] := by
  unfold TokenKind.ofWord
  repeat' split
  all_goals decide

theorem ofMark?_cases {c : Char} {kind : TokenKind} (h : TokenKind.ofMark? c = some kind) :
    kind ∈ [.plus, .minus, .star, .slash, .leftParen, .rightParen, .leftBracket, .rightBracket,
      .colon, .comma, .equals, .leftAngle, .rightAngle] := by
  unfold TokenKind.ofMark? at h
  split at h <;> cases h <;> decide

/-- The lexemes of each kind of token. -/
inductive Lexeme : TokenKind → List Char → Prop
  | integer {c : Char} {cs : List Char} (hdigits : ∀ d ∈ c :: cs, LexDigit d) :
      Lexeme .integer (c :: cs)
  | real {c : Char} {cs fraction exponent : List Char} (hwhole : ∀ d ∈ c :: cs, LexDigit d)
      (hfraction : IsFraction LexDigit fraction) (hexponent : IsExponent LexDigit exponent)
      (hpart : fraction ≠ [] ∨ exponent ≠ []) :
      Lexeme .real (c :: cs ++ (fraction ++ exponent))
  | word {c : Char} {cs : List Char} (hfirst : Text.isLetter c ∨ c = '_') (hdigit : ¬ Text.isDigit c)
      (hparts : ∀ d ∈ cs, isWordPart d) : Lexeme (.ofWord (.ofList (c :: cs))) (c :: cs)
  | mark {c : Char} {kind : TokenKind} (hmark : TokenKind.ofMark? c = some kind) : Lexeme kind [c]

/-- No lexeme is a token of the kinds that stand for the end of a line or of the text, and one
that is a real literal is a numeral. -/
theorem Lexeme.spec {kind : TokenKind} {cs : List Char} (h : Lexeme kind cs) :
    kind ≠ .newline ∧ kind ≠ .endOfText ∧ (kind = .real → IsNumeral LexDigit cs) := by
  cases h with
  | integer => exact ⟨nofun, nofun, nofun⟩
  | real hwhole hfraction hexponent =>
    exact ⟨nofun, nofun, fun _ => .intro hwhole hfraction hexponent⟩
  | @word c cs =>
    have hword := ofWord_cases (.ofList (c :: cs))
    exact ⟨ne_of_mem_of_not_mem hword (by decide), ne_of_mem_of_not_mem hword (by decide),
      fun h => absurd h (ne_of_mem_of_not_mem hword (by decide))⟩
  | mark hmark =>
    have hmark := ofMark?_cases hmark
    exact ⟨ne_of_mem_of_not_mem hmark (by decide), ne_of_mem_of_not_mem hmark (by decide),
      fun h => absurd h (ne_of_mem_of_not_mem hmark (by decide))⟩

/-- A number is an integer or a real literal. -/
theorem lexeme_takeNumber {c : Char} {cs : List Char} {x : Piece} {kind : TokenKind}
    (hc : Text.isDigit c) (hx : x ∈ (takeNumber c cs).1) (hkind : x.kind = .token kind) :
    Lexeme kind x.text := by
  have hwhole : ∀ d ∈ c :: cs.takeWhile Text.isDigit, LexDigit d :=
    List.forall_mem_cons.mpr ⟨hc, fun _ => lexDigit_of_mem_takeWhile⟩
  have hfraction := isFraction_takeFraction (cs.dropWhile Text.isDigit)
  rw [takeNumber_eq] at hx
  dsimp only at hx
  split at hx
  · rcases List.mem_cons.mp hx with rfl | hx
    · have hkind' := PieceKind.token.inj hkind
      split at hkind'
      · next hnone =>
        -- digits only
        rw [hnone, List.append_nil, ← hkind']
        exact .integer hwhole
      · next hsome =>
        -- digits and a fraction
        have hreal := Lexeme.real hwhole hfraction (.inl rfl) (.inl hsome)
        rwa [List.append_nil, hkind'] at hreal
    · split at hx
      · cases hx
      · rw [List.mem_singleton.mp hx] at hkind
        cases hkind
  · next hdigits =>
    -- an exponent as well
    rw [List.mem_singleton] at hx
    subst hx
    rw [← PieceKind.token.inj hkind]
    exact .real hwhole hfraction (isExponent_takeExponent hdigits)
      (.inr (List.append_ne_nil_of_right_ne_nil _ hdigits))

theorem lexeme_of_mem_next {c : Char} {cs : List Char} {x : Piece} {kind : TokenKind}
    (hx : x ∈ (next c cs).1) (hkind : x.kind = .token kind) : Lexeme kind x.text := by
  unfold next at hx
  split at hx
  · rw [List.mem_singleton.mp hx] at hkind; cases hkind
  split at hx
  · rw [List.mem_singleton.mp hx] at hkind; cases hkind
  split at hx
  · rw [List.mem_singleton.mp hx] at hkind; cases hkind
  split at hx
  · -- before this case there are blanks, comments and line breaks, which are no tokens
    next hdigit => exact lexeme_takeNumber hdigit hx hkind
  split at hx
  · next hdigit hfirst =>
    rw [List.mem_singleton] at hx
    subst hx
    rw [← PieceKind.token.inj hkind]
    exact .word (by simpa using hfirst) hdigit fun _ => List.mem_takeWhile_imp
  split at hx
  · next hmark =>
    rw [List.mem_singleton] at hx
    subst hx
    rw [← PieceKind.token.inj hkind]
    exact .mark hmark
  · rw [List.mem_singleton.mp hx] at hkind; cases hkind

/-- The tokens of a text are lexemes. -/
theorem lexeme_of_mem_split {cs : List Char} {x : Piece} {kind : TokenKind} (hx : x ∈ split cs)
    (hkind : x.kind = .token kind) : Lexeme kind x.text := by
  induction cs using split.induct with
  | case1 => rw [split] at hx; cases hx
  | case2 c cs ih =>
    rw [split, List.mem_append] at hx
    exact hx.elim (fun h => lexeme_of_mem_next h hkind) ih

theorem kind_ne_lineBreak_of_mem_takeNumber {c : Char} {cs : List Char} {x : Piece}
    (hx : x ∈ (takeNumber c cs).1) : x.kind ≠ .lineBreak := by
  rw [takeNumber_eq] at hx
  dsimp only at hx
  split at hx
  · rcases List.mem_cons.mp hx with rfl | hx
    · exact PieceKind.noConfusion
    · split at hx
      · cases hx
      · rw [List.mem_singleton.mp hx]
        exact PieceKind.noConfusion
  · rw [List.mem_singleton.mp hx]
    exact PieceKind.noConfusion

/-- A line break is what its name says. -/
theorem text_of_lineBreak {c : Char} {cs : List Char} {x : Piece} (hx : x ∈ (next c cs).1)
    (hkind : x.kind = .lineBreak) : x.text = ['\n'] := by
  unfold next at hx
  split at hx
  · rw [List.mem_singleton.mp hx] at hkind; cases hkind
  split at hx
  · rw [List.mem_singleton.mp hx] at hkind; cases hkind
  split at hx
  · next hc =>
    rw [List.mem_singleton.mp hx, hc]
  split at hx
  · exact absurd hkind (kind_ne_lineBreak_of_mem_takeNumber hx)
  split at hx
  · rw [List.mem_singleton.mp hx] at hkind; cases hkind
  split at hx
  all_goals rw [List.mem_singleton.mp hx] at hkind; cases hkind

/-- There are no line breaks but those of the text. -/
theorem newline_mem_of_lineBreak {cs : List Char} {x : Piece} (hx : x ∈ split cs)
    (hkind : x.kind = .lineBreak) : '\n' ∈ cs := by
  have htext : x.text = ['\n'] := by
    induction cs using split.induct with
    | case1 => rw [split] at hx; cases hx
    | case2 c cs ih =>
      rw [split, List.mem_append] at hx
      exact hx.elim (fun h => text_of_lineBreak h hkind) ih
  rw [← flatten_split cs]
  exact List.mem_flatMap.mpr ⟨x, hx, htext ▸ .head _⟩

/-! ## Tokens and the pieces that they come from -/

theorem mem_of_mem_layOut {xs : List Piece} {p q : Cursor} {x : Piece}
    (h : (q, x) ∈ layOut p xs) : x ∈ xs := by
  induction xs generalizing p with
  | nil => cases h
  | cons y ys ih =>
    rw [layOut] at h
    rcases List.mem_cons.mp h with h | h
    · rw [(Prod.mk.inj h).2]
      exact .head _
    · exact .tail _ (ih h)

/-- A token is a line break that counts, or a piece. -/
theorem of_mem_tokens {file : String} {filled : Bool} {xs : List (Cursor × Piece)} {t : Token}
    (h : t ∈ tokens file filled xs) :
    (t.kind = .newline ∧ ∃ y ∈ xs, y.2.kind = .lineBreak) ∨
      ∃ y ∈ xs, y.2.kind = .token t.kind ∧ t.lexeme = .ofList y.2.text := by
  induction xs generalizing filled with
  | nil => cases h
  | cons y ys ih =>
    obtain ⟨p, x⟩ := y
    have hlater : ∀ {filled}, t ∈ tokens file filled ys →
        (t.kind = .newline ∧ ∃ y ∈ (p, x) :: ys, y.2.kind = .lineBreak) ∨
          ∃ y ∈ (p, x) :: ys, y.2.kind = .token t.kind ∧ t.lexeme = .ofList y.2.text := by
      intro filled h
      refine (ih h).imp (fun ⟨ht, y, hy, hkind⟩ => ⟨ht, y, .tail _ hy, hkind⟩) ?_
      exact fun ⟨y, hy, hkind⟩ => ⟨y, .tail _ hy, hkind⟩
    rw [tokens] at h
    split at h
    · next kind hkind =>
      rcases List.mem_cons.mp h with rfl | h
      · exact .inr ⟨(p, x), .head _, hkind, rfl⟩
      · exact hlater h
    · next hkind =>
      split at h
      · rcases List.mem_cons.mp h with rfl | h
        · exact .inl ⟨rfl, (p, x), .head _, hkind⟩
        · exact hlater h
      · exact hlater h
    all_goals exact hlater h

end Piece

namespace Lexed

/-- No token of a text stands for its end, and its real literals are numerals. -/
theorem of_mem_tokens {source file : String} {t : Token} (h : t ∈ (ofText source file).tokens) :
    t.kind ≠ .endOfText ∧ (t.kind = .real → IsNumeral Piece.LexDigit t.lexeme.toList) := by
  rcases Piece.of_mem_tokens h with ⟨hkind, -⟩ | ⟨y, hy, hkind, hlexeme⟩
  · rw [hkind]
    exact ⟨nofun, nofun⟩
  · have hlex := Piece.lexeme_of_mem_split (Piece.mem_of_mem_layOut hy) hkind
    rw [hlexeme, String.toList_ofList]
    exact hlex.spec.2

/-- A text of one line has no line breaks. -/
theorem kind_ne_newline {source file : String} (hsource : '\n' ∉ source.toList) {t : Token}
    (h : t ∈ (ofText source file).tokens) : t.kind ≠ .newline := by
  rcases Piece.of_mem_tokens h with ⟨-, y, hy, hkind⟩ | ⟨y, hy, hkind, -⟩
  · exact absurd (Piece.newline_mem_of_lineBreak (Piece.mem_of_mem_layOut hy) hkind) hsource
  · exact (Piece.lexeme_of_mem_split (Piece.mem_of_mem_layOut hy) hkind).spec.1

/-- What stands in a token, line breaks apart, stands in the text. -/
theorem mem_of_mem_lexeme {source file : String} {t : Token}
    (h : t ∈ (ofText source file).tokens) (hkind : t.kind ≠ .newline) {c : Char}
    (hc : c ∈ t.lexeme.toList) : c ∈ source.toList := by
  rcases Piece.of_mem_tokens h with ⟨hnewline, -⟩ | ⟨y, hy, -, hlexeme⟩
  · exact absurd hnewline hkind
  · rw [hlexeme, String.toList_ofList] at hc
    rw [← Piece.flatten_split source.toList]
    exact List.mem_flatMap.mpr ⟨y.2, Piece.mem_of_mem_layOut hy, hc⟩

/-- A real literal that cannot be read has a digit that is none to the reader of numbers. -/
theorem not_isDecimal_of_ofText? {source file : String} {t : Token}
    (h : t ∈ (ofText source file).tokens) (hkind : t.kind = .real)
    (hnone : Binary64.ofText? t.lexeme = none) :
    ∃ c ∈ t.lexeme.toList, Text.isDigit c ∧ Text.digitValue? c = none := by
  by_contra hall
  push Not at hall
  have hdecimal : IsNumeral IsDecimal t.lexeme.toList := by
    refine ((of_mem_tokens h).2 hkind).mono fun c hc hdigit => ?_
    exact Option.isSome_iff_ne_none.mpr (hall c hc hdigit)
  have hsome := ofText?_of_isNumeral hdecimal
  rw [hnone] at hsome
  cases hsome

end Lexed

end BinaryPoint
