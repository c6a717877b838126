import BinaryPoint.Proofs.Program.Account
import BinaryPoint.Proofs.Program.Positions

/-! # Layout

What a text is lexed to depends on its lexemes alone. Written out again with whatever blanks,
comments and empty lines in between, a row of tokens is lexed to the same row.

* `Piece.next_lexeme`: before a blank, a line break, a comment or a mark, a lexeme is one token;
* `LaidOut.tokens_eq`: the tokens of a text in which a row is laid out are that row;
* `TokenRow.laidOut_spaced`: with one blank between its lexemes a row is laid out.
-/

namespace BinaryPoint

open Decimal

namespace Piece

/-! ## A lexeme is one token -/

/-- The characters at which a lexeme ends: blanks, line breaks, comments and marks. -/
def delimiters : List Char :=
  [' ', '\t', '\r', '\n', '#', '+', '-', '*', '/', '(', ')', '[', ']', ':', ',', '=', '<', '>']

/-- A text that does not go on with a lexeme before it. -/
def Delimited (rest : List Char) : Prop := ∀ c ∈ rest.head?, c ∈ delimiters

/-- No delimiter goes on with a word or with any part of a number. -/
theorem not_goesOn_of_mem_delimiters : ∀ c ∈ delimiters,
    isWordPart c = false ∧ Text.isDigit c = false ∧ c ∉ ['.', 'e', 'E'] := by
  have hall : delimiters.all fun c =>
      !isWordPart c && !Text.isDigit c && decide (c ∉ ['.', 'e', 'E']) := by decide +kernel
  simpa [and_assoc] using List.all_eq_true.mp hall

/-- A run of characters ends before one that does not go on with it. -/
theorem takeWhile_append_of_ends {p : Char → Bool} {cs rest : List Char} (hcs : ∀ c ∈ cs, p c)
    (hrest : ∀ c ∈ rest.head?, p c = false) :
    (cs ++ rest).takeWhile p = cs ∧ (cs ++ rest).dropWhile p = rest := by
  rw [List.takeWhile_append_of_pos hcs, List.dropWhile_append_of_pos hcs]
  cases rest with
  | nil => exact ⟨List.append_nil cs, rfl⟩
  | cons c rest =>
    have hc : ¬ p c := by simp [hrest c rfl]
    rw [List.takeWhile_cons_of_neg hc, List.dropWhile_cons_of_neg hc, List.append_nil]
    exact ⟨rfl, rfl⟩

section Numbers

variable {c : Char} {cs fraction exponent rest : List Char}

/-- What neither goes on with a row of digits nor is a fraction. -/
def EndsRow (rest : List Char) : Prop := ∀ c ∈ rest.head?, Text.isDigit c = false ∧ c ≠ '.'

theorem Delimited.endsRow (h : Delimited rest) : EndsRow rest := by
  intro c hc
  obtain ⟨-, hdigit, hmark⟩ := not_goesOn_of_mem_delimiters c (h c hc)
  exact ⟨hdigit, fun hpoint => hmark (by rw [hpoint]; decide)⟩

theorem isDigit_exponentMark {mark : Char} (hmark : mark = 'e' ∨ mark = 'E') :
    Text.isDigit mark = false ∧ mark ≠ '.' := by
  rcases hmark with rfl | rfl <;> decide +kernel

theorem endsRow_exponent (hexponent : IsExponent LexDigit exponent) (hrest : EndsRow rest) :
    EndsRow (exponent ++ rest) := by
  rcases hexponent with rfl | ⟨mark, sign, d, ds, rfl, hmark, -, -⟩
  · exact hrest
  · rintro _ ⟨rfl⟩
    exact isDigit_exponentMark hmark

theorem takeFraction_of_isFraction (hfraction : IsFraction LexDigit fraction)
    (hrest : EndsRow rest) : takeFraction (fraction ++ rest) = (fraction, rest) := by
  rcases hfraction with rfl | ⟨d, ds, rfl, hds⟩
  · rcases rest with _ | ⟨c, rest⟩
    · rfl
    · exact takeFraction_cons_of_ne (hrest c rfl).2 rest
  · obtain ⟨hd, hds⟩ := List.forall_mem_cons.mp hds
    obtain ⟨htake, hdrop⟩ := takeWhile_append_of_ends hds fun c hc => (hrest c hc).1
    simp only [List.cons_append, takeFraction, htake, hdrop]
    exact if_pos hd

/-- A sign in front of digits is told apart from them. -/
theorem takeSign_of_digit {sign : List Char} {d : Char} (hd : LexDigit d)
    (hsign : sign = [] ∨ sign = ['+'] ∨ sign = ['-']) (ds : List Char) :
    takeSign (sign ++ d :: ds) = (sign, d :: ds) := by
  have hmarks : Text.isDigit '+' = false ∧ Text.isDigit '-' = false := by decide +kernel
  rcases hsign with rfl | rfl | rfl
  · have hplus : d ≠ '+' := by rintro rfl; exact absurd hd (by simp [LexDigit, hmarks.1])
    have hminus : d ≠ '-' := by rintro rfl; exact absurd hd (by simp [LexDigit, hmarks.2])
    rw [List.nil_append, takeSign.eq_3 _ (fun _ h => hplus (List.cons.inj h).1)
      (fun _ h => hminus (List.cons.inj h).1)]
  · rfl
  · rfl

theorem takeExponent_of_delimited (hrest : Delimited rest) : takeExponent rest = ([], [], rest) := by
  rcases rest with _ | ⟨c, rest⟩
  · rfl
  · obtain ⟨-, -, hmark⟩ := not_goesOn_of_mem_delimiters c (hrest c rfl)
    simp only [List.mem_cons, not_or] at hmark
    rw [takeExponent, if_neg (by simp [hmark])]

theorem takeExponent_of_isExponent (hexponent : IsExponent LexDigit exponent)
    (hrest : Delimited rest) :
    ∃ mark digits, takeExponent (exponent ++ rest) = (mark, digits, rest) ∧
      exponent = mark ++ digits ∧ (digits = [] → exponent = []) := by
  rcases hexponent with rfl | ⟨mark, sign, d, ds, rfl, hmark, hsign, hds⟩
  · exact ⟨[], [], takeExponent_of_delimited hrest, rfl, fun _ => rfl⟩
  · obtain ⟨htake, hdrop⟩ := takeWhile_append_of_ends hds fun c hc => (hrest.endsRow c hc).1
    refine ⟨mark :: sign, d :: ds, ?_, rfl, nofun⟩
    rw [List.cons_append, List.append_assoc, List.cons_append, takeExponent,
      if_pos (by simpa using hmark), takeSign_of_digit (hds d (.head _)) hsign]
    simp only [← List.cons_append, htake, hdrop]

/-- A numeral is taken as a whole. -/
theorem takeNumber_of_isNumeral (hwhole : ∀ d ∈ cs, LexDigit d)
    (hfraction : IsFraction LexDigit fraction) (hexponent : IsExponent LexDigit exponent)
    (hrest : Delimited rest) :
    takeNumber c (cs ++ (fraction ++ (exponent ++ rest))) =
      ([⟨.token (if fraction = [] ∧ exponent = [] then .integer else .real),
        c :: cs ++ (fraction ++ exponent)⟩], rest) := by
  have hbehind := endsRow_exponent hexponent hrest.endsRow
  have hends : ∀ c ∈ (fraction ++ (exponent ++ rest)).head?, Text.isDigit c = false := by
    rcases hfraction with rfl | ⟨d, ds, rfl, -⟩
    · exact fun c hc => (hbehind c hc).1
    · rintro _ ⟨rfl⟩
      decide +kernel
  obtain ⟨htake, hdrop⟩ := takeWhile_append_of_ends hwhole hends
  obtain ⟨mark, digits, hexp, hparts, hnone⟩ := takeExponent_of_isExponent hexponent hrest
  rw [takeNumber_eq, htake, hdrop, takeFraction_of_isFraction hfraction hbehind, hexp]
  dsimp only
  -- an exponent that is there has digits, so that no number is broken off
  split
  · next hdigits =>
    have hexponent := hnone hdigits
    rw [hexponent] at hparts ⊢
    have hmark : mark = [] := (List.append_eq_nil_iff.mp hparts.symm).1
    simp only [hmark, if_true, and_true, List.append_nil]
  · next hdigits =>
    have hexponent : exponent ≠ [] := fun h =>
      hdigits (List.append_eq_nil_iff.mp (hparts.symm.trans h)).2
    rw [if_neg fun h => hexponent h.2, hparts]

end Numbers

/-- The characters that stand between lexemes start none. -/
theorem not_starts_of_mem_gaps : ∀ c ∈ [' ', '\t', '\r', '#', '\n'],
    Text.isDigit c = false ∧ Text.isLetter c = false ∧ c ≠ '_' ∧ TokenKind.ofMark? c = none := by
  have hall : [' ', '\t', '\r', '#', '\n'].all fun c =>
      !Text.isDigit c && !Text.isLetter c && c ≠ '_' && (TokenKind.ofMark? c).isNone := by
    decide +kernel
  simpa [and_assoc] using List.all_eq_true.mp hall

/-- A character that starts a lexeme passes the tests for gaps. -/
theorem not_gap {c : Char}
    (h : Text.isDigit c ∨ Text.isLetter c ∨ c = '_' ∨ TokenKind.ofMark? c ≠ none) :
    ¬ (c = ' ' || c = '\t' || c = '\r') ∧ c ≠ '#' ∧ c ≠ '\n' := by
  have hgap : c ∉ [' ', '\t', '\r', '#', '\n'] := fun hc => by
    obtain ⟨hdigit, hletter, hscore, hmark⟩ := not_starts_of_mem_gaps c hc
    simp [hdigit, hletter, hscore, hmark] at h
  simp only [List.mem_cons, List.not_mem_nil, or_false, not_or] at hgap
  exact ⟨by simp [hgap], hgap.2.2.2.1, hgap.2.2.2.2⟩

/-- A mark is one token, whatever stands behind it. -/
theorem next_mark {c : Char} {kind : TokenKind} (hmark : TokenKind.ofMark? c = some kind)
    (rest : List Char) : next c rest = ([⟨.token kind, [c]⟩], rest) := by
  obtain ⟨hblank, hcomment, hbreak⟩ := not_gap (c := c) (by simp [hmark])
  have hword : ¬ Text.isDigit c ∧ ¬ (Text.isLetter c || c = '_') := by
    unfold TokenKind.ofMark? at hmark
    split at hmark <;> first | cases hmark; done | decide +kernel
  rw [next, if_neg hblank, if_neg hcomment, if_neg hbreak, if_neg hword.1, if_neg hword.2, hmark]

/-- **A lexeme is one token**, if what stands behind it does not go on with it. -/
theorem next_lexeme {kind : TokenKind} {c : Char} {cs rest : List Char}
    (h : Lexeme kind (c :: cs)) (hrest : Delimited rest) :
    next c (cs ++ rest) = ([⟨.token kind, c :: cs⟩], rest) := by
  generalize hlexeme : c :: cs = lexeme at h
  -- a digit is none of the characters that are looked at before it
  have hnumber : LexDigit c → next c (cs ++ rest) = takeNumber c (cs ++ rest) := by
    intro hc
    obtain ⟨hblank, hcomment, hbreak⟩ := not_gap (.inl hc)
    rw [next, if_neg hblank, if_neg hcomment, if_neg hbreak]
    exact if_pos hc
  cases h with
  | integer hdigits =>
    obtain ⟨rfl, rfl⟩ := List.cons.inj hlexeme
    obtain ⟨hc, hcs⟩ := List.forall_mem_cons.mp hdigits
    have htake := takeNumber_of_isNumeral (c := c) hcs (.inl rfl) (.inl rfl) hrest
    simp only [List.nil_append, List.append_nil, and_self, if_true] at htake
    rw [hnumber hc, htake]
  | real hwhole hfraction hexponent hpart =>
    rw [List.cons_append, List.cons.injEq] at hlexeme
    obtain ⟨rfl, rfl⟩ := hlexeme
    obtain ⟨hc, hcs⟩ := List.forall_mem_cons.mp hwhole
    have htake := takeNumber_of_isNumeral (c := c) hcs hfraction hexponent hrest
    rw [if_neg (by tauto)] at htake
    rw [hnumber hc, List.append_assoc, List.append_assoc, htake]
  | word hfirst hdigit hparts =>
    obtain ⟨rfl, rfl⟩ := List.cons.inj hlexeme
    obtain ⟨hblank, hcomment, hbreak⟩ := not_gap (c := c) (by tauto)
    -- the word ends where the rest begins
    obtain ⟨htake, hdrop⟩ := takeWhile_append_of_ends hparts fun d hd =>
      (not_goesOn_of_mem_delimiters d (hrest d hd)).1
    rw [next, if_neg hblank, if_neg hcomment, if_neg hbreak, if_neg hdigit,
      if_pos (by simpa using hfirst), htake, hdrop]
  | mark hmark =>
    obtain ⟨rfl, rfl⟩ := List.cons.inj hlexeme
    exact next_mark hmark rest

theorem split_of_next {x : Piece} {c : Char} {cs rest : List Char}
    (h : next c cs = ([x], rest)) : split (c :: cs) = x :: split rest := by
  rw [split, h]
  rfl

end Piece

/-! ## Laying out a row -/

/-- The row is laid out in the text: its lexemes stand there in their order, with blanks, comments
and empty lines in between, and lines end where the row says so. The flag tells whether the
line that the text goes on with is filled, so that its end counts. -/
inductive LaidOut : Bool → List (TokenKind × String) → List Char → Prop
  | done {filled : Bool} : LaidOut filled [] []
  | blank {filled : Bool} {row : List (TokenKind × String)} {c : Char} {rest : List Char}
      (hc : c ∈ [' ', '\t', '\r']) (hrest : LaidOut filled row rest) :
      LaidOut filled row (c :: rest)
  | comment {filled : Bool} {row : List (TokenKind × String)} {note rest : List Char}
      (hnote : '\n' ∉ note) (hend : ∀ c ∈ rest.head?, c = '\n')
      (hrest : LaidOut filled row rest) : LaidOut filled row ('#' :: (note ++ rest))
  | emptyLine {row : List (TokenKind × String)} {rest : List Char}
      (hrest : LaidOut false row rest) : LaidOut false row ('\n' :: rest)
  | lineEnd {row : List (TokenKind × String)} {rest : List Char}
      (hrest : LaidOut false row rest) : LaidOut true ((.newline, "\\n") :: row) ('\n' :: rest)
  | lexeme {filled : Bool} {kind : TokenKind} {row : List (TokenKind × String)} {c : Char}
      {cs rest : List Char} (h : Piece.Lexeme kind (c :: cs)) (hend : Piece.Delimited rest)
      (hrest : LaidOut true row rest) :
      LaidOut filled ((kind, .ofList (c :: cs)) :: row) (c :: (cs ++ rest))
  | mark {filled : Bool} {kind : TokenKind} {row : List (TokenKind × String)} {c : Char}
      {rest : List Char} (h : TokenKind.ofMark? c = some kind) (hrest : LaidOut true row rest) :
      LaidOut filled ((kind, .ofList [c]) :: row) (c :: rest)

/-- A row that is laid out is what the lexer gives, and nothing is wrong with the text. -/
theorem LaidOut.tokens_eq {filled : Bool} {row : List (TokenKind × String)} {cs : List Char}
    (h : LaidOut filled row cs) (file : String) (p : Cursor) :
    (Piece.tokens file filled (Piece.layOut p (Piece.split cs))).map Token.spelling = row ∧
      Piece.diagnostics file (Piece.layOut p (Piece.split cs)) = [] := by
  -- in each way to go on, the first piece is split off and the rest is known by induction
  induction h generalizing p with
  | done => rw [Piece.split]; exact ⟨rfl, rfl⟩
  | @blank _ _ c rest hc hrest ih =>
    have hnext : Piece.next c rest = ([⟨.blank, [c]⟩], rest) := by
      rw [Piece.next, if_pos (by simpa [or_assoc] using hc)]
    rw [Piece.split_of_next hnext]
    exact ih _
  | @comment _ _ note rest hnote hend hrest ih =>
    have hin : ∀ c ∈ note, decide (c ≠ '\n') := fun c hc => by
      simpa using ne_of_mem_of_not_mem hc hnote
    have hbreak : ∀ c ∈ rest.head?, decide (c ≠ '\n') = false := by simpa using hend
    obtain ⟨htake, hdrop⟩ := Piece.takeWhile_append_of_ends hin hbreak
    have hnext : Piece.next '#' (note ++ rest) = ([⟨.comment, '#' :: note⟩], rest) := by
      rw [Piece.next, if_neg (by decide), if_pos rfl, htake, hdrop]
    rw [Piece.split_of_next hnext]
    exact ih _
  | @emptyLine _ rest hrest ih =>
    rw [Piece.split_of_next (show Piece.next '\n' rest = _ from rfl)]
    exact ih _
  | @lineEnd _ rest hrest ih =>
    rw [Piece.split_of_next (show Piece.next '\n' rest = _ from rfl)]
    exact ⟨congrArg _ (ih _).1, (ih _).2⟩
  | lexeme h hend hrest ih =>
    rw [Piece.split_of_next (Piece.next_lexeme h hend)]
    exact ⟨congrArg _ (ih _).1, (ih _).2⟩
  | @mark _ _ _ _ rest h hrest ih =>
    rw [Piece.split_of_next (Piece.next_mark h rest)]
    exact ⟨congrArg _ (ih _).1, (ih _).2⟩

/-! ## Rows of texts -/

/-- A row of lexemes in which each line that ends is filled. -/
inductive TokenRow : Bool → List (TokenKind × String) → Prop
  | done {filled : Bool} : TokenRow filled []
  | lexeme {filled : Bool} {kind : TokenKind} {row : List (TokenKind × String)} {cs : List Char}
      (h : Piece.Lexeme kind cs) (hrest : TokenRow true row) :
      TokenRow filled ((kind, .ofList cs) :: row)
  | lineEnd {row : List (TokenKind × String)} (hrest : TokenRow false row) :
      TokenRow true ((.newline, "\\n") :: row)

namespace TokenRow

/-- The tokens of pieces are such a row if nothing is wrong with any character. -/
theorem of_tokens {file : String} {xs : List Piece} {filled : Bool} (p : Cursor)
    (hlexeme : ∀ x ∈ xs, ∀ kind, x.kind = .token kind → Piece.Lexeme kind x.text)
    (hstray : ∀ x ∈ xs, x.kind ≠ .stray) :
    TokenRow filled ((Piece.tokens file filled (Piece.layOut p xs)).map Token.spelling) := by
  induction xs generalizing filled p with
  | nil => exact .done
  | cons x xs ih =>
    obtain ⟨hx, hlexeme⟩ := List.forall_mem_cons.mp hlexeme
    obtain ⟨hx', hstray⟩ := List.forall_mem_cons.mp hstray
    rw [Piece.layOut, Piece.tokens]
    cases hkind : x.kind with
    | token kind => exact .lexeme (hx kind hkind) (ih _ hlexeme hstray)
    | lineBreak =>
      cases filled with
      | true => exact .lineEnd (ih _ hlexeme hstray)
      | false => exact ih _ hlexeme hstray
    | stray =>
      -- it would fill the line without a token
      exact absurd hkind hx'
    | _ => exact ih _ hlexeme hstray

/-- How a token of a row is written: a line break as such, any other one by its lexeme. -/
def written (spelling : TokenKind × String) : String :=
  if spelling.1 = .newline then "\n" else spelling.2

/-- The text of a row, with one blank between its tokens. -/
def spaced (row : List (TokenKind × String)) : String := " ".intercalate (row.map written)

/-- Behind the first token of such a text comes the text of the others, with a blank before it
unless there are none. -/
theorem toList_spaced_cons {filled : Bool} {row : List (TokenKind × String)}
    (h : LaidOut filled row (spaced row).toList) (spelling : TokenKind × String) :
    ∃ rest, (spaced (spelling :: row)).toList = (written spelling).toList ++ rest ∧
      Piece.Delimited rest ∧ LaidOut filled row rest := by
  cases row with
  | nil => exact ⟨[], by simp [spaced], nofun, .done⟩
  | cons next row =>
    refine ⟨' ' :: (spaced (next :: row)).toList, ?_, ?_, .blank (by decide) h⟩
    · rw [spaced, List.map_cons, List.map_cons, String.intercalate_cons_cons, String.toList_append,
        String.toList_append, List.append_assoc]
      rfl
    · rintro _ ⟨rfl⟩
      decide

/-- Every row is laid out in the text of its tokens with one blank in between. -/
theorem laidOut_spaced {filled : Bool} {row : List (TokenKind × String)}
    (h : TokenRow filled row) : LaidOut filled row (spaced row).toList := by
  induction h with
  | done => exact .done
  | @lexeme filled kind row cs h hrest ih =>
    obtain ⟨rest, htext, hend, hrest⟩ := toList_spaced_cons ih (kind, .ofList cs)
    rw [htext, written, if_neg h.spec.1, String.toList_ofList]
    -- a lexeme is not empty
    cases cs with
    | nil => cases h
    | cons c cs => exact .lexeme h hend hrest
  | @lineEnd row hrest ih =>
    obtain ⟨rest, htext, -, hrest⟩ := toList_spaced_cons ih (.newline, "\\n")
    rw [htext]
    exact .lineEnd hrest

end TokenRow

namespace Lexed

/-- What is written in a text: the kinds and lexemes of its tokens, but for the end. -/
def spellings (l : Lexed) : List (TokenKind × String) := l.tokens.map Token.spelling

theorem row_spellings {source file : String} (h : (ofText source file).diagnostics = []) :
    TokenRow false (ofText source file).spellings :=
  .of_tokens _ (fun _ hx _ hkind => Piece.lexeme_of_mem_split hx hkind) (Piece.kind_ne_stray h)

theorem spelling_row (l : Lexed) :
    l.row.map Token.spelling = l.spellings ++ [(.endOfText, "")] := by
  rw [row, List.map_append]
  rfl

/-- **Layout does not matter.** If nothing is wrong with the characters of a text, then the text
of its tokens with one blank in between has the same row of kinds and lexemes, and so has every
text in which these are laid out in another way. Whatever has the same row is parsed alike, but
for positions. -/
theorem layout_irrelevant {source file : String} (h : (ofText source file).diagnostics = []) :
    (∀ text file' : String,
      text = TokenRow.spaced (ofText source file).spellings ∨
        LaidOut false (ofText source file).spellings text.toList →
      (ofText text file').diagnostics = [] ∧
        (ofText text file').row.map Token.spelling = (ofText source file).row.map Token.spelling) ∧
    ∀ (text file' : String) (place : Location), (ofText text file').diagnostics = [] →
      (ofText text file').row.map Token.spelling = (ofText source file).row.map Token.spelling →
      Program.parseAt place text file' = Program.parseAt place source file := by
  refine ⟨fun text file' htext => ?_, fun text file' place hclean hrow => ?_⟩
  · have hlaid : LaidOut false (ofText source file).spellings text.toList := by
      rcases htext with rfl | hlaid
      · exact (row_spellings h).laidOut_spaced
      · exact hlaid
    obtain ⟨hrow, hclean⟩ := hlaid.tokens_eq file' {}
    refine ⟨hclean, ?_⟩
    rw [spelling_row, spelling_row]
    exact congrArg (· ++ _) hrow
  · rw [spelling_row, spelling_row] at hrow
    exact Program.parseAt_congr place hclean h (List.append_cancel_right hrow)

/-- Neither a comment nor an empty line counts, nor do blanks around marks. -/
theorem layout_irrelevant_comment :
    let source := "const A:sfix<3,4>=1.5e-3 # gain\n\nconst B=-A"
    let text := "const A : sfix < 3 , 4 > = 1.5e-3 \n const B = - A"
    (ofText source "p").diagnostics = [] ∧ (ofText text "q").diagnostics = [] ∧
      (ofText text "q").row.map Token.spelling = (ofText source "p").row.map Token.spelling ∧
      Program.parseAt ⟨"", 0, 0⟩ text "q" = Program.parseAt ⟨"", 0, 0⟩ source "p" := by
  intro source text
  have hclean : (ofText source "p").diagnostics = [] := by decide +kernel
  have htext : text = TokenRow.spaced (ofText source "p").spellings := by decide +kernel
  obtain ⟨hlexed, hparsed⟩ := layout_irrelevant hclean
  obtain ⟨hclean', hrow⟩ := hlexed text "q" (.inl htext)
  exact ⟨hclean, hclean', hrow, hparsed text "q" ⟨"", 0, 0⟩ hclean' hrow⟩

end Lexed

end BinaryPoint
