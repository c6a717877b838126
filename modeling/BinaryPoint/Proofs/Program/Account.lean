import BinaryPoint.Proofs.Program.Grammar
import BinaryPoint.Proofs.Program.Lines
import Mathlib.Data.List.Basic

/-! # The lexer accounts for every character

A source text is its lexemes, in their order and each at the position that its token holds,
with gaps in between. What stands in a gap is blank, a comment, or reported, each character or
broken exponent by one diagnostic.

* `Accounted`: what it is for tokens and diagnostics to account for a text;
* `Piece.accounted_split`: those of the pieces of a text account for it;
* `Piece.tokens_cons`: what the lexer gives for one piece, by the flag that it keeps;
* `Piece.breaks_eq_nil_iff`, `Piece.length_breaks_le`: how many line breaks come before the next
  lexeme;
* `Lexed.row_accounts`: both together, for the whole row of tokens of any text.
-/

namespace BinaryPoint

/-- A character that no token and no comment starts with, and that is not blank. -/
def Unexpected (c : Char) : Prop :=
  c ∉ [' ', '\t', '\r', '\n', '#', '_'] ∧ ¬ Text.isDigit c ∧ ¬ Text.isLetter c ∧
    TokenKind.ofMark? c = none

/-- The text from a place on is made of the lexemes of tokens, each where its token says, and
of gaps between them. Each diagnostic is about one part of a gap, and all parts that are neither
blank nor comments have one. -/
inductive Accounted (file : String) : Cursor → List Char → List Token → List Diagnostic → Prop
  | done {p : Cursor} : Accounted file p [] [] []
  | lexeme {p : Cursor} {t : Token} {rest : List Char} {ts : List Token} {ds : List Diagnostic}
      (hplace : t.place = p.inFile file)
      (hrest : Accounted file (p.advance t.lexeme.toList) rest ts ds) :
      Accounted file p (t.lexeme.toList ++ rest) (t :: ts) ds
  | blank {p : Cursor} {c : Char} {rest : List Char} {ts : List Token} {ds : List Diagnostic}
      (hc : c ∈ [' ', '\t', '\r', '\n']) (hrest : Accounted file (p.step c) rest ts ds) :
      Accounted file p (c :: rest) ts ds
  | comment {p : Cursor} {note rest : List Char} {ts : List Token} {ds : List Diagnostic}
      (hnote : '\n' ∉ note) (hend : ∀ c ∈ rest.head?, c = '\n')
      (hrest : Accounted file (p.advance ('#' :: note)) rest ts ds) :
      Accounted file p ('#' :: note ++ rest) ts ds
  | unexpected {p : Cursor} {c : Char} {rest : List Char} {ts : List Token}
      {ds : List Diagnostic} (hc : Unexpected c)
      (hrest : Accounted file (p.step c) rest ts ds) :
      Accounted file p (c :: rest) ts
        (.errorAt s!"Unexpected character: {Text.quoted (.ofList [c])}" (p.inFile file) :: ds)
  | exponent {p : Cursor} {mark : Char} {sign rest : List Char} {ts : List Token}
      {ds : List Diagnostic} (hmark : mark ∈ ['e', 'E']) (hsign : sign ∈ [[], ['+'], ['-']])
      (hend : ∀ c ∈ rest.head?, ¬ Text.isDigit c)
      (hrest : Accounted file (p.advance (mark :: sign)) rest ts ds) :
      Accounted file p (mark :: sign ++ rest) ts
        (.errorAt "Expected digits after exponent in float literal"
          ((p.advance (mark :: sign)).inFile file) :: ds)

namespace Token

/-- Whether a token is neither a line break nor the end of the text. -/
def isLexeme (t : Token) : Bool := t.kind ≠ .newline && t.kind ≠ .endOfText

theorem isLexeme_iff {t : Token} :
    t.isLexeme ↔ t.kind ≠ .newline ∧ t.kind ≠ .endOfText := by
  simp [isLexeme]

/-- In a row of tokens the lexeme `u` comes next after the lexeme `t`, with no more than line
breaks in between. -/
def Follows (row : List Token) (t : Token) (breaks : List Token) (u : Token) : Prop :=
  t.isLexeme ∧ u.isLexeme ∧ Breaks breaks ∧
    ∃ before after, row = before ++ t :: (breaks ++ u :: after)

end Token

/-- Line breaks come before a lexeme, so that there are none if a row starts with one. -/
theorem Breaks.eq_nil {breaks rest ts : List Token} {t : Token} (hbreaks : Breaks breaks)
    (ht : t.isLexeme) (h : t :: ts = breaks ++ rest) : breaks = [] := by
  cases breaks with
  | nil => rfl
  | cons b breaks =>
    have hb : b.kind = .newline := hbreaks b (.head _)
    rw [← (List.cons.inj h).1] at hb
    exact absurd hb (Token.isLexeme_iff.mp ht).1

namespace Piece

/-! ## Pieces account for their text -/

/-- The token that a piece is, if it is one. -/
def lexeme? (file : String) (p : Cursor) (x : Piece) : Option Token :=
  match x.kind with
  | .token kind => some ⟨kind, .ofList x.text, p.inFile file⟩
  | _ => none

/-- The lexemes among pieces that are laid out. -/
def lexemes (file : String) (xs : List (Cursor × Piece)) : List Token :=
  xs.filterMap fun x => x.2.lexeme? file x.1

/-- What is wrong with pieces that are laid out. -/
def diagnostics (file : String) (xs : List (Cursor × Piece)) : List Diagnostic :=
  xs.filterMap fun x => x.2.diagnostic? file x.1

/-- A piece accounts for itself before any rest that is accounted for. -/
def Fits (file : String) (x : Piece) (rest : List Char) : Prop :=
  ∀ p ts ds, Accounted file (p.advance x.text) rest ts ds →
    Accounted file p (x.text ++ rest) ((x.lexeme? file p).toList ++ ts)
      ((x.diagnostic? file p).toList ++ ds)

/-- Pieces that follow one another each account for themselves before what comes after them. -/
def AllFit (file : String) : List Piece → List Char → Prop
  | [], _ => True
  | x :: xs, rest => Fits file x (xs.flatMap text ++ rest) ∧ AllFit file xs rest

section Fits

variable {file : String} {rest : List Char}

theorem fits_token (kind : TokenKind) (text : List Char) : Fits file ⟨.token kind, text⟩ rest := by
  intro p ts ds h
  have hlexeme : (String.ofList text).toList = text := String.toList_ofList
  have haccounted := Accounted.lexeme (t := ⟨kind, .ofList text, p.inFile file⟩) rfl
    (hlexeme.symm ▸ h)
  rwa [hlexeme] at haccounted

theorem fits_blank {kind : PieceKind} {c : Char} (hkind : kind = .blank ∨ kind = .lineBreak)
    (hc : c ∈ [' ', '\t', '\r', '\n']) : Fits file ⟨kind, [c]⟩ rest := by
  intro p ts ds h
  obtain rfl | rfl := hkind <;> exact .blank hc h

theorem fits_comment {note : List Char} (hnote : '\n' ∉ note)
    (hend : ∀ c ∈ rest.head?, c = '\n') : Fits file ⟨.comment, '#' :: note⟩ rest :=
  fun _ _ _ => .comment hnote hend

theorem fits_stray {c : Char} (hc : Unexpected c) : Fits file ⟨.stray, [c]⟩ rest :=
  fun _ _ _ => .unexpected hc

theorem fits_brokenExponent {mark : Char} {sign : List Char} (hmark : mark ∈ ['e', 'E'])
    (hsign : sign ∈ [[], ['+'], ['-']]) (hend : ∀ c ∈ rest.head?, ¬ Text.isDigit c) :
    Fits file ⟨.brokenExponent, mark :: sign⟩ rest :=
  fun _ _ _ => .exponent hmark hsign hend

theorem allFit_singleton {x : Piece} (h : Fits file x rest) : AllFit file [x] rest := ⟨h, trivial⟩

theorem allFit_append {xs ys : List Piece} (hxs : AllFit file xs (ys.flatMap text ++ rest))
    (hys : AllFit file ys rest) : AllFit file (xs ++ ys) rest := by
  induction xs with
  | nil => exact hys
  | cons x xs ih =>
    have hx := hxs.1
    rw [← List.append_assoc, ← List.flatMap_append] at hx
    exact ⟨hx, ih hxs.2⟩

/-- Pieces that fit account for all of their text. -/
theorem accounted_of_allFit {xs : List Piece} {p : Cursor} {ts : List Token}
    {ds : List Diagnostic} (hxs : AllFit file xs rest)
    (h : Accounted file (p.advance (xs.flatMap text)) rest ts ds) :
    Accounted file p (xs.flatMap text ++ rest) (lexemes file (layOut p xs) ++ ts)
      (diagnostics file (layOut p xs) ++ ds) := by
  induction xs generalizing p with
  | nil => exact h
  | cons x xs ih =>
    rw [List.flatMap_cons, Cursor.advance_append] at h
    -- The pieces behind the first one account for what stands behind it.
    have haccounted := hxs.1 _ _ _ (ih hxs.2 h)
    simp only [lexemes, diagnostics, List.filterMap_eq_flatMap_toList] at haccounted ⊢
    rw [layOut, List.flatMap_cons, List.flatMap_cons, List.flatMap_cons]
    simpa only [List.append_assoc] using haccounted

end Fits

/-- What follows a run of characters does not go on with it. -/
theorem not_of_mem_head?_dropWhile {p : Char → Bool} {cs : List Char} {c : Char}
    (hc : c ∈ (cs.dropWhile p).head?) : p c = false := by
  have hnot := List.head?_dropWhile_not p cs
  rwa [Option.mem_def.mp hc] at hnot

/-- An exponent without digits is a mark and perhaps a sign, and no digit follows. -/
theorem fits_takeExponent {file : String} {cs : List Char} (hdigits : (takeExponent cs).2.1 = [])
    (hne : (takeExponent cs).1 ≠ []) :
    Fits file ⟨.brokenExponent, (takeExponent cs).1⟩ (takeExponent cs).2.2 := by
  unfold takeExponent at hdigits hne ⊢
  split
  · exact absurd rfl hne
  · next c cs =>
    dsimp only at hdigits hne ⊢
    split
    · next hc =>
      refine fits_brokenExponent (by simpa using hc) (by simpa using takeSign_cases cs) ?_
      exact fun d hd => Bool.eq_false_iff.mp (not_of_mem_head?_dropWhile hd)
    · next hc =>
      rw [if_neg hc] at hne
      exact absurd rfl hne

theorem allFit_takeNumber (file : String) (c : Char) (cs : List Char) :
    AllFit file (takeNumber c cs).1 (takeNumber c cs).2 := by
  rw [takeNumber_eq]
  dsimp only
  by_cases hdigits : (takeExponent (takeFraction (cs.dropWhile Text.isDigit)).2).2.1 = []
  · rw [if_pos hdigits]
    refine ⟨fits_token _ _, ?_⟩
    split
    · trivial
    · next hmark => exact allFit_singleton (fits_takeExponent hdigits hmark)
  · rw [if_neg hdigits]
    exact allFit_singleton (fits_token _ _)

/-- The pieces at a character account for it and for what else they take. -/
theorem allFit_next (file : String) (c : Char) (cs : List Char) :
    AllFit file (next c cs).1 (next c cs).2 := by
  unfold next
  split
  · next hblank =>
    -- blanks
    refine allFit_singleton (fits_blank (.inl rfl) ?_)
    simp only [Bool.or_eq_true, decide_eq_true_eq] at hblank
    obtain (rfl | rfl) | rfl := hblank <;> decide
  next hblank =>
  split
  · next hc =>
    -- a comment, up to the end of its line
    subst hc
    refine allFit_singleton (fits_comment (fun hmem => ?_) fun d hd => ?_)
    · simpa using List.mem_takeWhile_imp hmem
    · simpa using not_of_mem_head?_dropWhile hd
  next hnote =>
  split
  · next hc =>
    -- a line break
    subst hc
    exact allFit_singleton (fits_blank (.inr rfl) (by decide))
  next hbreak =>
  split
  · -- a number, with an exponent that may be broken
    exact allFit_takeNumber file c cs
  next hdigit =>
  split
  · -- a word, and then a mark
    exact allFit_singleton (fits_token _ _)
  next hletter =>
  split
  · exact allFit_singleton (fits_token _ _)
  · next hmark =>
    -- anything else is a stray character
    refine allFit_singleton (fits_stray ⟨?_, hdigit, ?_, hmark⟩)
    · simp_all
    · simp_all

theorem allFit_split (file : String) (cs : List Char) : AllFit file (split cs) [] := by
  induction cs using split.induct with
  | case1 => rw [split]; trivial
  | case2 c cs ih =>
    rw [split]
    refine allFit_append ?_ ih
    rw [flatten_split, List.append_nil]
    exact allFit_next file c cs

/-- The pieces of a text account for it. -/
theorem accounted_split (file : String) (p : Cursor) (cs : List Char) :
    Accounted file p cs (lexemes file (layOut p (split cs)))
      (diagnostics file (layOut p (split cs))) := by
  have haccounted := accounted_of_allFit (p := p) (allFit_split file cs) .done
  rwa [flatten_split, List.append_nil, List.append_nil, List.append_nil] at haccounted

/-! ## How pieces are cut -/

/-- Line breaks are where the newlines are, and no piece is a token of the kinds that stand for
the end of a line or of the text. -/
def WellCut (xs : List Piece) : Prop :=
  ∀ x ∈ xs, (x.kind = .lineBreak ∧ x.text = ['\n'] ∨ x.kind ≠ .lineBreak ∧ '\n' ∉ x.text) ∧
    ∀ kind, x.kind = .token kind → kind ≠ .newline ∧ kind ≠ .endOfText

theorem WellCut.tail {x : Piece} {xs : List Piece} (h : WellCut (x :: xs)) : WellCut xs :=
  fun y hy => h y (.tail _ hy)

/-- A piece of a text that is no line break stays on its line. -/
theorem lineBreak_or_of_mem_split {cs : List Char} {x : Piece} (hx : x ∈ split cs) :
    x.kind = .lineBreak ∧ x.text = ['\n'] ∨ x.kind ≠ .lineBreak ∧ '\n' ∉ x.text := by
  induction hlength : cs.length using Nat.strong_induction_on generalizing cs with
  | _ n ih =>
    by_cases hmem : '\n' ∈ cs
    · -- The first line has no line break, and what comes after its end is shorter.
      obtain ⟨line, rest, rfl, hline⟩ := List.eq_append_cons_of_mem hmem
      rw [List.length_append, List.length_cons] at hlength
      rw [split_append_newline, List.mem_append, List.mem_cons] at hx
      rcases hx with hx | rfl | hx
      · exact ih _ (by omega) hx rfl
      · exact .inl ⟨rfl, rfl⟩
      · exact ih _ (by omega) hx rfl
    · refine .inr ⟨fun h => hmem (newline_mem_of_lineBreak hx h), fun h => hmem ?_⟩
      rw [← flatten_split cs]
      exact List.mem_flatMap.mpr ⟨x, hx, h⟩

theorem wellCut_split (cs : List Char) : WellCut (split cs) := by
  intro x hx
  refine ⟨lineBreak_or_of_mem_split hx, fun kind hkind => ?_⟩
  obtain ⟨hnewline, hend, -⟩ := (lexeme_of_mem_split hx hkind).spec
  exact ⟨hnewline, hend⟩

theorem exists_mem_layOut {xs : List Piece} {x : Piece} (p : Cursor) (hx : x ∈ xs) :
    ∃ q, (q, x) ∈ layOut p xs := by
  induction xs generalizing p with
  | nil => cases hx
  | cons y xs ih =>
    rw [layOut]
    rcases List.mem_cons.mp hx with rfl | hx
    · exact ⟨p, .head _⟩
    · obtain ⟨q, hq⟩ := ih (p.advance y.text) hx
      exact ⟨q, .tail _ hq⟩

/-- Where nothing is reported, all characters have their place. -/
theorem kind_ne_stray {file : String} {p : Cursor} {xs : List Piece}
    (h : diagnostics file (layOut p xs) = []) : ∀ x ∈ xs, x.kind ≠ .stray := by
  intro x hx hstray
  obtain ⟨q, hq⟩ := exists_mem_layOut p hx
  have hnone := List.filterMap_eq_nil_iff.mp h _ hq
  simp [diagnostic?, hstray] at hnone

/-! ## Line breaks -/

/-- What the lexer gives for one piece at a place: whether the line is filled before the piece,
its tokens, and whether the line is filled behind it. -/
inductive Emits (file : String) (p : Cursor) (x : Piece) : Bool → List Token → Bool → Prop
  | lexeme {filled : Bool} {t : Token} (ht : t.isLexeme) (hplace : t.place = p.inFile file)
      (hline : (p.advance x.text).line = p.line) : Emits file p x filled [t] true
  | lineEnd {t : Token} (ht : t.kind = .newline) (hplace : t.place = p.inFile file)
      (hline : (p.advance x.text).line = p.line + 1) : Emits file p x true [t] false
  | emptyLine (hline : (p.advance x.text).line = p.line + 1) : Emits file p x false [] false
  | stray {filled : Bool} (hkind : x.kind = .stray)
      (hline : (p.advance x.text).line = p.line) : Emits file p x filled [] true
  | gap {filled : Bool} (hline : (p.advance x.text).line = p.line) :
      Emits file p x filled [] filled

section Breaks

variable {file : String} {xs : List Piece} {p : Cursor} {filled : Bool}

theorem lexemes_cons (x : Piece) (ys : List (Cursor × Piece)) :
    lexemes file ((p, x) :: ys) = (x.lexeme? file p).toList ++ lexemes file ys := by
  simp only [lexemes, List.filterMap_eq_flatMap_toList, List.flatMap_cons]

/-- The step of the lexer: the first piece gives what it gives, and the others go on from the
place and the flag behind it. -/
theorem tokens_cons (file : String) (p : Cursor) (filled : Bool) {x : Piece}
    (hcut : WellCut (x :: xs)) :
    ∃ ts behind, Emits file p x filled ts behind ∧
      ts.filter Token.isLexeme = (x.lexeme? file p).toList ∧
      tokens file filled (layOut p (x :: xs)) =
        ts ++ tokens file behind (layOut (p.advance x.text) xs) := by
  obtain ⟨hshape, htoken⟩ := hcut x (.head _)
  have hbreak : x.kind = .lineBreak → x.text = ['\n'] := fun hkind =>
    hshape.elim And.right fun h => absurd hkind h.1
  have hstays : x.kind ≠ .lineBreak → (p.advance x.text).line = p.line := by
    intro hkind
    obtain ⟨hkind', -⟩ | ⟨-, hnot⟩ := hshape
    · exact absurd hkind' hkind
    · rw [Cursor.line_advance, List.count_eq_zero_of_not_mem hnot, Nat.add_zero]
  rw [layOut, tokens, lexeme?]
  -- One case for each kind of piece; whether it stays on its line is all that is left to show.
  cases hkind : x.kind with
  | token kind =>
    have hlexeme : Token.isLexeme ⟨kind, .ofList x.text, p.inFile file⟩ :=
      Token.isLexeme_iff.mpr (htoken kind hkind)
    exact ⟨_, _, .lexeme hlexeme rfl (hstays (by simp [hkind])), List.filter_cons_of_pos hlexeme,
      rfl⟩
  | lineBreak =>
    have hdown : (p.advance x.text).line = p.line + 1 := by
      rw [hbreak hkind]
      rfl
    cases filled with
    | true => exact ⟨_, _, .lineEnd rfl rfl hdown, rfl, rfl⟩
    | false => exact ⟨_, _, .emptyLine hdown, rfl, rfl⟩
  | stray => exact ⟨_, _, .stray hkind (hstays (by simp [hkind])), rfl, rfl⟩
  | _ => exact ⟨_, _, .gap (hstays (by simp [hkind])), rfl, rfl⟩

/-- The tokens that are no line breaks are the pieces that are lexemes. -/
theorem filter_tokens (hcut : WellCut xs) (filled : Bool) (p : Cursor) :
    (tokens file filled (layOut p xs)).filter Token.isLexeme = lexemes file (layOut p xs) := by
  induction xs generalizing filled p with
  | nil => rfl
  | cons x xs ih =>
    obtain ⟨ts, behind, -, hlexeme, htokens⟩ := tokens_cons file p filled hcut
    rw [htokens, List.filter_append, hlexeme, ih hcut.tail, layOut, lexemes_cons]

/-- Tokens stand no higher than where their text begins. -/
theorem line_le_of_mem_tokens (hcut : WellCut xs) {t : Token}
    (h : t ∈ tokens file filled (layOut p xs)) : (p.line : Int) ≤ t.place.line := by
  induction xs generalizing filled p with
  | nil => cases h
  | cons x xs ih =>
    obtain ⟨ts, behind, hemits, -, htokens⟩ := tokens_cons file p filled hcut
    rw [htokens, List.mem_append] at h
    rcases h with h | h
    · have hplace : t.place = p.inFile file := by
        cases hemits <;> simp_all
      rw [hplace]
      exact Int.le_refl _
    · have hle := ih hcut.tail h
      have hline := Cursor.line_advance p x.text
      omega

/-- On a filled line, the next lexeme comes without a line break if and only if it stands on
that line. -/
theorem breaks_eq_nil_iff (hcut : WellCut xs) {breaks after : List Token} {u : Token}
    (hbreaks : Breaks breaks) (hu : u.isLexeme)
    (h : tokens file true (layOut p xs) = breaks ++ u :: after) :
    breaks = [] ↔ u.place.line = p.line := by
  induction xs generalizing p with
  | nil => simp [layOut, tokens] at h
  | cons x xs ih =>
    obtain ⟨ts, behind, hemits, -, htokens⟩ := tokens_cons file p true hcut
    rw [htokens] at h
    cases hemits with
    | lexeme ht hplace =>
      -- the piece is the lexeme itself
      have hnil := hbreaks.eq_nil ht h
      subst hnil
      refine iff_of_true rfl ?_
      rw [← (List.cons.inj h).1, hplace]
      rfl
    | lineEnd ht hplace hline =>
      obtain ⟨-, hhead⟩ | ⟨later, rfl, htail⟩ := List.cons_eq_append_iff.mp h
      · rw [(List.cons.inj hhead).1] at hu
        exact absurd ht (Token.isLexeme_iff.mp hu).1
      · -- What comes behind the line break stands at least one line further down.
        have hmem : u ∈ tokens file false (layOut (p.advance x.text) xs) := by
          rw [show tokens file false (layOut (p.advance x.text) xs) = _ from htail]
          exact List.mem_append_right _ (.head _)
        have hle := line_le_of_mem_tokens hcut.tail hmem
        refine iff_of_false (List.cons_ne_nil _ _) ?_
        omega
    | stray hkind hline => rw [← hline]; exact ih hcut.tail h
    | gap hline => rw [← hline]; exact ih hcut.tail h

/-- Where nothing is reported, a filled line is followed by one line break at most before the
next lexeme, and an empty one by none. -/
theorem length_breaks_le (hcut : WellCut xs) (hclean : ∀ x ∈ xs, x.kind ≠ .stray)
    {breaks rest : List Token} (hbreaks : Breaks breaks)
    (h : tokens file filled (layOut p xs) = breaks ++ rest) : breaks.length ≤ filled.toNat := by
  induction xs generalizing p filled breaks with
  | nil =>
    rw [(List.append_eq_nil_iff.mp h.symm).1]
    exact Nat.zero_le _
  | cons x xs ih =>
    obtain ⟨ts, behind, hemits, -, htokens⟩ := tokens_cons file p filled hcut
    have hlater := fun {breaks} => @ih (p.advance x.text) behind hcut.tail
      (fun y hy => hclean y (.tail _ hy)) breaks
    rw [htokens] at h
    cases hemits with
    | lexeme ht =>
      -- a lexeme comes at once
      rw [hbreaks.eq_nil ht h]
      exact Nat.zero_le _
    | lineEnd ht =>
      obtain ⟨rfl, -⟩ | ⟨breaks, rfl, htail⟩ := List.cons_eq_append_iff.mp h
      · exact Nat.zero_le _
      · -- one line break leaves an empty line behind it, so no other one follows
        exact Nat.succ_le_succ (hlater (fun b hb => hbreaks b (.tail _ hb)) htail)
    | stray hkind => exact absurd hkind (hclean x (.head _))
    | _ => exact hlater hbreaks h

/-- Behind a lexeme its line is filled. -/
theorem tokens_behind (hcut : WellCut xs) {before rest : List Token} {t : Token}
    (ht : t.isLexeme) (h : tokens file filled (layOut p xs) = before ++ t :: rest) :
    ∃ q ys, ys ⊆ xs ∧ (q.line : Int) = t.place.line ∧
      rest = tokens file true (layOut q ys) := by
  induction xs generalizing p filled before with
  | nil => simp [layOut, tokens] at h
  | cons x xs ih =>
    obtain ⟨ts, behind, hemits, -, htokens⟩ := tokens_cons file p filled hcut
    rw [htokens] at h
    have hlater : ∀ {before}, tokens file behind (layOut (p.advance x.text) xs) =
        before ++ t :: rest → ∃ q ys, ys ⊆ x :: xs ∧ (q.line : Int) = t.place.line ∧
          rest = tokens file true (layOut q ys) := by
      intro before h
      obtain ⟨q, ys, hys, hrest⟩ := ih hcut.tail h
      exact ⟨q, ys, List.subset_cons_of_subset _ hys, hrest⟩
    cases hemits with
    | lexeme ht' hplace hline =>
      obtain ⟨-, h⟩ | ⟨before, -, h⟩ := List.cons_eq_append_iff.mp h
      · obtain ⟨rfl, rfl⟩ := List.cons.inj h
        refine ⟨p.advance x.text, xs, List.subset_cons_self _ _, ?_, rfl⟩
        rw [hplace, hline]
        rfl
      · exact hlater h
    | lineEnd ht' =>
      obtain ⟨-, h⟩ | ⟨before, -, h⟩ := List.cons_eq_append_iff.mp h
      · rw [(List.cons.inj h).1] at ht
        exact absurd ht' (Token.isLexeme_iff.mp ht).1
      · exact hlater h
    | _ => exact hlater h

end Breaks

end Piece

namespace Lexed

/-- The row of a text ends with its only token for the end of a text. -/
theorem row_ends (source file : String) :
    ∃ ts last, (ofText source file).row = ts ++ [last] ∧ last.kind = .endOfText ∧
      ∀ t ∈ ts, t.kind ≠ .endOfText :=
  ⟨_, _, rfl, rfl, fun _ ht => (of_mem_tokens ht).1⟩

theorem filter_row (source file : String) :
    (ofText source file).row.filter Token.isLexeme =
      Piece.lexemes file (Piece.layOut {} (Piece.split source.toList)) := by
  rw [row, List.filter_append, ofText, Piece.filter_tokens (Piece.wellCut_split _)]
  exact List.append_nil _

/-- Lexemes that follow one another in the row do so before its last token. -/
theorem tokens_of_follows {source file : String} {t u : Token} {breaks : List Token}
    (h : Token.Follows (ofText source file).row t breaks u) :
    ∃ before after, (ofText source file).tokens = before ++ t :: (breaks ++ u :: after) := by
  obtain ⟨-, hu, -, before, after, hrow⟩ := h
  rw [row] at hrow
  obtain rfl | ⟨after, last, rfl⟩ := List.eq_nil_or_concat after
  · have hsplit : (ofText source file).tokens ++ [(ofText source file).endToken] =
        (before ++ t :: breaks) ++ [u] := by simpa using hrow
    obtain ⟨-, hlast⟩ := List.append_inj' hsplit rfl
    rw [← List.singleton_inj.mp hlast] at hu
    exact absurd rfl (Token.isLexeme_iff.mp hu).2
  · have hsplit : (ofText source file).tokens ++ [(ofText source file).endToken] =
        (before ++ t :: (breaks ++ u :: after)) ++ [last] := by simpa using hrow
    exact ⟨before, after, (List.append_inj' hsplit rfl).1⟩

/-- **The lexer accounts for every character.** The lexemes of a text are those of its row of
tokens, which ends with its only token for the end of the text. Between two lexemes there is a
line break if and only if they stand on different lines; where nothing is reported there is no
second one, and none at the start of the row. -/
theorem row_accounts (source file : String) :
    Accounted file {} source.toList ((ofText source file).row.filter Token.isLexeme)
      (ofText source file).diagnostics ∧
    (∃ ts last, (ofText source file).row = ts ++ [last] ∧ last.kind = .endOfText ∧
      ∀ t ∈ ts, t.kind ≠ .endOfText) ∧
    (∀ t breaks u, Token.Follows (ofText source file).row t breaks u →
      (breaks = [] ↔ t.place.line = u.place.line) ∧
      ((ofText source file).diagnostics = [] → t.place.line ≠ u.place.line →
        breaks.length = 1)) ∧
    ((ofText source file).diagnostics = [] →
      ∀ t ∈ (ofText source file).row.head?, t.kind ≠ .newline) := by
  have hcut := Piece.wellCut_split source.toList
  refine ⟨?_, row_ends source file, fun t breaks u hfollows => ?_, fun hclean t ht hkind => ?_⟩
  · rw [filter_row]
    exact Piece.accounted_split file {} source.toList
  · -- Behind the first of the two lexemes, the lexer is on its line and has the line filled.
    obtain ⟨before, after, htokens⟩ := tokens_of_follows hfollows
    obtain ⟨ht, hu, hbreaks, -⟩ := hfollows
    obtain ⟨q, ys, hys, hline, hrest⟩ := Piece.tokens_behind hcut ht htokens
    have hcut' : Piece.WellCut ys := fun x hx => hcut x (hys hx)
    have hnil := Piece.breaks_eq_nil_iff hcut' hbreaks hu hrest.symm
    rw [hline, eq_comm (a := u.place.line)] at hnil
    refine ⟨hnil, fun hclean hne => Nat.le_antisymm ?_ ?_⟩
    · have hstray : ∀ x ∈ Piece.split source.toList, x.kind ≠ .stray :=
        Piece.kind_ne_stray hclean
      exact Piece.length_breaks_le hcut' (fun x hx => hstray x (hys hx)) hbreaks hrest.symm
    · exact List.length_pos_of_ne_nil (mt hnil.mp hne)
  · -- At the start of the text the line is not filled.
    cases htokens : (ofText source file).tokens with
    | nil =>
      rw [row, htokens] at ht
      cases ht
      cases hkind
    | cons first rest =>
      rw [row, htokens] at ht
      cases ht
      have hbreaks : Breaks [t] := fun b hb => List.mem_singleton.mp hb ▸ hkind
      have hle := Piece.length_breaks_le hcut (Piece.kind_ne_stray hclean) hbreaks htokens
      cases hle

end Lexed

end BinaryPoint
