import BinaryPoint.Proofs.Program.Lexing
import BinaryPoint.Proofs.Program.Moved
import Mathlib.Tactic.Common

/-! # A line break parts a text

The lexer never looks past the end of a line, so the tokens of a text of two parts with a
line break in between are those of the first part, the line break unless its line is empty,
and those of the second part further down.

* `Piece.split_append_newline`: the pieces of both parts are those of the whole;
* `Lexed.tokens_append_line`: so are the tokens.
-/

namespace BinaryPoint

namespace Piece

/-! ## Pieces -/

section TakeWhile

variable {p : Char → Bool} (hp : p '\n' = false) (cs rest : List Char)

include hp

theorem takeWhile_append_newline : (cs ++ '\n' :: rest).takeWhile p = cs.takeWhile p := by
  induction cs with
  | nil => rw [List.nil_append, List.takeWhile_cons_of_neg (by simp [hp]), List.takeWhile_nil]
  | cons c cs ih => rw [List.cons_append, List.takeWhile_cons, List.takeWhile_cons, ih]

theorem dropWhile_append_newline :
    (cs ++ '\n' :: rest).dropWhile p = cs.dropWhile p ++ '\n' :: rest := by
  induction cs with
  | nil => rw [List.nil_append, List.dropWhile_cons_of_neg (by simp [hp]), List.dropWhile_nil,
      List.nil_append]
  | cons c cs ih =>
    rw [List.cons_append, List.dropWhile_cons, List.dropWhile_cons, ih]
    split <;> rfl

end TakeWhile

theorem isDigit_newline : Text.isDigit '\n' = false := by decide +kernel

theorem isWordPart_newline : isWordPart '\n' = false := by decide +kernel

theorem takeFraction_cons_of_ne {c : Char} (hc : c ≠ '.') (cs : List Char) :
    takeFraction (c :: cs) = ([], c :: cs) := by
  unfold takeFraction
  split
  · next h => exact absurd (List.cons.inj h).1 hc
  · rfl

variable (cs rest : List Char)

theorem takeFraction_append_newline :
    takeFraction (cs ++ '\n' :: rest) =
      ((takeFraction cs).1, (takeFraction cs).2 ++ '\n' :: rest) := by
  rcases cs with _ | ⟨c, _ | ⟨d, cs⟩⟩
  · rfl
  · -- a point at the very end has no digit behind it, and none behind the line break
    by_cases hc : c = '.'
    · subst hc
      simp [takeFraction, isDigit_newline]
    · rw [List.cons_append, takeFraction_cons_of_ne hc, takeFraction_cons_of_ne hc]
      rfl
  · by_cases hc : c = '.'
    · subst hc
      simp only [takeFraction, List.cons_append]
      split
      · simp only [takeWhile_append_newline isDigit_newline,
          dropWhile_append_newline isDigit_newline]
      · rfl
    · rw [List.cons_append, takeFraction_cons_of_ne hc, takeFraction_cons_of_ne hc]
      rfl

theorem takeSign_append_newline :
    takeSign (cs ++ '\n' :: rest) = ((takeSign cs).1, (takeSign cs).2 ++ '\n' :: rest) := by
  rcases cs with _ | ⟨c, cs⟩
  · rfl
  · unfold takeSign
    simp only [List.cons_append]
    split <;> simp_all

theorem takeExponent_append_newline :
    takeExponent (cs ++ '\n' :: rest) =
      ((takeExponent cs).1, (takeExponent cs).2.1, (takeExponent cs).2.2 ++ '\n' :: rest) := by
  rcases cs with _ | ⟨c, cs⟩
  · rfl
  · simp only [takeExponent, List.cons_append]
    split
    · simp only [takeSign_append_newline, takeWhile_append_newline isDigit_newline,
        dropWhile_append_newline isDigit_newline]
    · rfl

theorem takeNumber_append_newline (c : Char) :
    takeNumber c (cs ++ '\n' :: rest) =
      ((takeNumber c cs).1, (takeNumber c cs).2 ++ '\n' :: rest) := by
  simp only [takeNumber_eq, takeWhile_append_newline isDigit_newline,
    dropWhile_append_newline isDigit_newline, takeFraction_append_newline,
    takeExponent_append_newline]
  split <;> rfl

/-- What the pieces at a character are does not depend on the next line. -/
theorem next_append_newline (c : Char) :
    next c (cs ++ '\n' :: rest) = ((next c cs).1, (next c cs).2 ++ '\n' :: rest) := by
  have hcomment : (fun c : Char => decide (c ≠ '\n')) '\n' = false := rfl
  unfold next
  split
  · rfl
  split
  · rw [takeWhile_append_newline hcomment, dropWhile_append_newline hcomment]
  split
  · rfl
  split
  · exact takeNumber_append_newline cs rest c
  split
  · rw [takeWhile_append_newline isWordPart_newline, dropWhile_append_newline isWordPart_newline]
  split <;> rfl

theorem split_append_newline :
    split (cs ++ '\n' :: rest) = split cs ++ ⟨.lineBreak, ['\n']⟩ :: split rest := by
  induction cs using split.induct with
  | case1 =>
    have hnext : next '\n' rest = ([⟨.lineBreak, ['\n']⟩], rest) := rfl
    rw [List.nil_append, split.eq_1, split.eq_2, hnext]
    rfl
  | case2 c cs ih =>
    rw [List.cons_append, split, next_append_newline, split.eq_2 c cs]
    dsimp only
    rw [ih, List.append_assoc]

/-! ## Places -/

end Piece

namespace Cursor

theorem advance_append (p : Cursor) (cs ds : List Char) :
    p.advance (cs ++ ds) = (p.advance cs).advance ds :=
  List.foldl_append

/-- The same place further down. -/
def below (lines : Nat) (p : Cursor) : Cursor := { p with line := p.line + lines }

theorem advance_below (lines : Nat) (p : Cursor) (cs : List Char) :
    (p.below lines).advance cs = (p.advance cs).below lines := by
  induction cs generalizing p with
  | nil => rfl
  | cons c cs ih =>
    have hstep : (p.below lines).step c = (p.step c).below lines := by
      unfold step
      split
      · simp only [below, Nat.add_right_comm]
      · rfl
    show advance ((p.below lines).step c) cs = ((p.step c).advance cs).below lines
    rw [hstep, ih]

/-- Each line break leads one line down. -/
theorem line_advance (p : Cursor) (cs : List Char) :
    (p.advance cs).line = p.line + cs.count '\n' := by
  induction cs generalizing p with
  | nil => rfl
  | cons c cs ih =>
    show (advance (p.step c) cs).line = _
    rw [ih, step, List.count_cons]
    by_cases hc : c = '\n'
    · simp only [hc, if_true, beq_self_eq_true]
      omega
    · simp only [hc, if_false, beq_iff_eq]
      rfl

/-- Behind a text and a line break a line starts. -/
theorem advance_line (cs : List Char) :
    (Cursor.advance {} cs).advance ['\n'] = Cursor.below (cs.count '\n' + 1) {} := by
  have hline := line_advance {} cs
  show Cursor.step _ '\n' = _
  rw [step, if_pos rfl, hline, below]
  simp only [Cursor.mk.injEq, and_true]
  omega

end Cursor

namespace Piece

theorem layOut_append (p : Cursor) (xs ys : List Piece) :
    layOut p (xs ++ ys) = layOut p xs ++ layOut (p.advance (xs.flatMap text)) ys := by
  induction xs generalizing p with
  | nil => rfl
  | cons x xs ih =>
    rw [List.cons_append, layOut, layOut, ih, List.flatMap_cons, Cursor.advance_append,
      List.cons_append]

theorem layOut_below (lines : Nat) (p : Cursor) (xs : List Piece) :
    layOut (p.below lines) xs = (layOut p xs).map fun y => (y.1.below lines, y.2) := by
  induction xs generalizing p with
  | nil => rfl
  | cons x xs ih => rw [layOut, layOut, Cursor.advance_below, ih, List.map_cons]

/-! ## Tokens -/

/-- Whether something other than blanks and comments stands behind the last line break that
counted, once some pieces are passed. -/
def filledAfter (filled : Bool) (xs : List (Cursor × Piece)) : Bool :=
  xs.foldl (fun filled y =>
    match y.2.kind with
    | .token _ | .stray => true
    | .lineBreak => false
    | .blank | .comment | .brokenExponent => filled) filled

theorem tokens_append (file : String) (filled : Bool) (xs ys : List (Cursor × Piece)) :
    tokens file filled (xs ++ ys) =
      tokens file filled xs ++ tokens file (filledAfter filled xs) ys := by
  induction xs generalizing filled with
  | nil => rfl
  | cons y xs ih =>
    obtain ⟨p, x⟩ := y
    rw [List.cons_append, tokens, tokens, filledAfter, List.foldl_cons]
    change _ = _ ++ tokens file (filledAfter _ xs) ys
    cases hkind : x.kind with
    | lineBreak =>
      cases filled <;> simp only [ih] <;> rfl
    | _ => simp only [ih, List.cons_append]

theorem tokens_below (file : String) (lines : Nat) (filled : Bool) (xs : List (Cursor × Piece)) :
    tokens file filled (xs.map fun y => (y.1.below lines, y.2)) =
      (tokens file filled xs).map (Token.moved (Location.below lines)) := by
  induction xs generalizing filled with
  | nil => rfl
  | cons y xs ih =>
    obtain ⟨p, x⟩ := y
    rw [List.map_cons, tokens, tokens]
    cases hkind : x.kind with
    | lineBreak =>
      cases filled <;> simp only [ih] <;> rfl
    | _ => simp only [ih, List.map_cons] <;> rfl

/-- Behind a line break that counted, or where none has, there is either no token or a line
break is the last one. -/
theorem tokens_of_not_filledAfter (file : String) {filled : Bool} {xs : List (Cursor × Piece)}
    (h : filledAfter filled xs = false) :
    (filled = false ∧ tokens file filled xs = []) ∨
      ∃ ts t, tokens file filled xs = ts ++ [t] ∧ t.kind = .newline := by
  induction xs generalizing filled with
  | nil => exact .inl ⟨h, rfl⟩
  | cons y xs ih =>
    obtain ⟨p, x⟩ := y
    rw [filledAfter, List.foldl_cons] at h
    rw [tokens]
    cases hkind : x.kind with
    -- the line is filled now, so a line break has to come later
    | token kind =>
      rw [hkind] at h
      obtain ⟨htrue, -⟩ | ⟨ts, t, hts, ht⟩ := ih h
      · cases htrue
      · exact .inr ⟨_ :: ts, t, congrArg _ hts, ht⟩
    | stray =>
      rw [hkind] at h
      obtain ⟨htrue, -⟩ | hlast := ih h
      · cases htrue
      · exact .inr hlast
    | lineBreak =>
      rw [hkind] at h
      cases filled with
      | false => exact ih h
      -- this line break counts, and it is the last one if none comes behind it
      | true =>
        obtain ⟨-, hnone⟩ | ⟨ts, t, hts, ht⟩ := ih h
        · exact .inr ⟨[], _, congrArg _ hnone, rfl⟩
        · exact .inr ⟨_ :: ts, t, congrArg _ hts, ht⟩
    | _ =>
      rw [hkind] at h
      exact ih h

end Piece

namespace Lexed

/-- The token for the end of the last line of a text, unless that line is empty. -/
def lineEnd (source file : String) : List Token :=
  if Piece.filledAfter false (Piece.layOut {} (Piece.split source.toList)) then
    [⟨.newline, "\\n", (Cursor.advance {} source.toList).inFile file⟩]
  else []

/-- Where a position of a text is once the text stands on the line behind another one. -/
def lineBelow (source : String) : Location → Location :=
  Location.below (source.toList.count '\n' + 1)

theorem toList_append_line (p q : String) :
    (p ++ "\n" ++ q).toList = p.toList ++ '\n' :: q.toList := by
  simp only [String.toList_append, List.append_assoc]
  rfl

/-- A text of two parts has the tokens of both, and that of the line break in between. -/
theorem tokens_append_line (p q file : String) :
    (ofText (p ++ "\n" ++ q) file).tokens =
      (ofText p file).tokens ++
        (lineEnd p file ++ (ofText q file).tokens.map (Token.moved (lineBelow p))) := by
  rw [ofText, ofText, ofText, toList_append_line, Piece.split_append_newline, Piece.layOut_append,
    Piece.tokens_append, Piece.flatten_split, Piece.layOut, Cursor.advance_line,
    Piece.layOut_below, Piece.tokens]
  dsimp only
  rw [Piece.tokens_below, lineEnd]
  split <;> rfl

/-- With its last line ended, a text has the token of that line break as well. -/
theorem tokens_line_break (source file : String) :
    (ofText (source ++ "\n") file).tokens = (ofText source file).tokens ++ lineEnd source file := by
  have happend := tokens_append_line source "" file
  have hnil : (ofText "" file).tokens = [] := by
    rw [ofText, String.toList_empty, Piece.split]
    rfl
  rw [String.append_empty, hnil, List.map_nil, List.append_nil] at happend
  exact happend

theorem endToken_append_line (p q file : String) :
    (ofText (p ++ "\n" ++ q) file).endToken = (ofText q file).endToken.moved (lineBelow p) := by
  have hend : Cursor.advance {} (p ++ "\n" ++ q).toList =
      (Cursor.advance {} q.toList).below (p.toList.count '\n' + 1) := by
    rw [toList_append_line, ← List.singleton_append, Cursor.advance_append, Cursor.advance_append,
      Cursor.advance_line, Cursor.advance_below]
  rw [endToken, endToken, ofText, ofText, hend]
  rfl

/-- The line break behind a text gives a token, or one stands there already, or there is no
token at all. -/
theorem tokens_line (source file : String) :
    ((ofText source file).tokens = [] ∧ lineEnd source file = []) ∨
      ∃ ts t u, t.kind = .newline ∧ (u = [] ∨ u = [t]) ∧ (ofText source file).tokens = ts ++ u ∧
        (ofText source file).tokens ++ lineEnd source file = ts ++ [t] := by
  rw [lineEnd]
  split
  · exact .inr ⟨_, _, [], rfl, .inl rfl, (List.append_nil _).symm, rfl⟩
  · next hfilled =>
    rcases Piece.tokens_of_not_filledAfter file (Bool.eq_false_iff.mpr hfilled) with
      ⟨-, hnone⟩ | ⟨ts, t, hts, ht⟩
    · exact .inl ⟨hnone, rfl⟩
    · exact .inr ⟨ts, t, [t], ht, .inr rfl, hts, (List.append_nil _).trans hts⟩

end Lexed

end BinaryPoint
