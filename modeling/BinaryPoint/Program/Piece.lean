import BinaryPoint.Text.CharClass
import BinaryPoint.Program.Token

/-! # Pieces of source text

A source text is cut into pieces that follow one another without a gap: tokens, what
stands between them, and what does not belong there. Joined together the pieces are
the source text again.
-/

namespace BinaryPoint

/-- What a piece of source text is. -/
inductive PieceKind
  | blank
  | comment
  | lineBreak
  | token (kind : TokenKind)
  | brokenExponent
  | stray
deriving DecidableEq, Repr

/-- A stretch of source text and what it is. -/
structure Piece where
  kind : PieceKind
  text : List Char
deriving DecidableEq, Repr

namespace Piece

/-- A fraction at the start of a text: a point and at least one digit. -/
def takeFraction : List Char → List Char × List Char
  | '.' :: d :: cs =>
    if Text.isDigit d then ('.' :: d :: cs.takeWhile Text.isDigit, cs.dropWhile Text.isDigit)
    else ([], '.' :: d :: cs)
  | cs => ([], cs)

/-- A sign at the start of a text. -/
def takeSign : List Char → List Char × List Char
  | '+' :: cs => (['+'], cs)
  | '-' :: cs => (['-'], cs)
  | cs => ([], cs)

/-- An exponent at the start of a text: its mark and sign, its digits, and the rest. Without
digits the exponent is broken. -/
def takeExponent : List Char → List Char × List Char × List Char
  | [] => ([], [], [])
  | c :: cs =>
    if c = 'e' || c = 'E' then
      let (sign, cs) := takeSign cs
      (c :: sign, cs.takeWhile Text.isDigit, cs.dropWhile Text.isDigit)
    else ([], [], c :: cs)

/-- The pieces of a number whose first digit is `c`, and the rest. A broken exponent is a
piece of its own. -/
def takeNumber (c : Char) (cs : List Char) : List Piece × List Char :=
  let whole := c :: cs.takeWhile Text.isDigit
  let (fraction, cs) := takeFraction (cs.dropWhile Text.isDigit)
  let (mark, digits, cs) := takeExponent cs
  if digits.isEmpty then
    let kind := if fraction.isEmpty then .integer else .real
    let number : Piece := ⟨.token kind, whole ++ fraction⟩
    (if mark.isEmpty then [number] else [number, ⟨.brokenExponent, mark⟩], cs)
  else ([⟨.token .real, whole ++ fraction ++ mark ++ digits⟩], cs)

/-- What a word may go on with. -/
def isWordPart (c : Char) : Bool := Text.isAlphanumeric c || c = '_'

/-- The pieces that start at the character `c`, and the rest. -/
def next (c : Char) (cs : List Char) : List Piece × List Char :=
  if c = ' ' || c = '\t' || c = '\r' then ([⟨.blank, [c]⟩], cs)
  else if c = '#' then ([⟨.comment, c :: cs.takeWhile (· ≠ '\n')⟩], cs.dropWhile (· ≠ '\n'))
  else if c = '\n' then ([⟨.lineBreak, [c]⟩], cs)
  else if Text.isDigit c then takeNumber c cs
  else if Text.isLetter c || c = '_' then
    let word := c :: cs.takeWhile isWordPart
    ([⟨.token (.ofWord (String.ofList word)), word⟩], cs.dropWhile isWordPart)
  else match TokenKind.ofMark? c with
    | some kind => ([⟨.token kind, [c]⟩], cs)
    | none => ([⟨.stray, [c]⟩], cs)

theorem length_dropWhile_le (p : Char → Bool) (cs : List Char) :
    (cs.dropWhile p).length ≤ cs.length :=
  (List.dropWhile_sublist p).length_le

theorem takeFraction_length_le (cs : List Char) :
    (takeFraction cs).2.length ≤ cs.length := by
  unfold takeFraction
  split
  · split
    · have := length_dropWhile_le Text.isDigit
      simp only [List.length_cons]
      exact Nat.le_succ_of_le (Nat.le_succ_of_le (this _))
    · exact Nat.le_refl _
  · exact Nat.le_refl _

theorem takeSign_length_le (cs : List Char) : (takeSign cs).2.length ≤ cs.length := by
  unfold takeSign
  split <;> simp

theorem takeExponent_length_le (cs : List Char) :
    (takeExponent cs).2.2.length ≤ cs.length := by
  unfold takeExponent
  split
  · exact Nat.le_refl _
  · next c cs =>
    split
    · exact Nat.le_trans (length_dropWhile_le _ _)
        (Nat.le_succ_of_le (takeSign_length_le cs))
    · exact Nat.le_refl _

theorem takeNumber_length_le (c : Char) (cs : List Char) :
    (takeNumber c cs).2.length ≤ cs.length := by
  have h : (takeNumber c cs).2
      = (takeExponent (takeFraction (cs.dropWhile Text.isDigit)).2).2.2 := by
    simp only [takeNumber]
    split <;> rfl
  rw [h]
  exact Nat.le_trans (takeExponent_length_le _)
    (Nat.le_trans (takeFraction_length_le _) (length_dropWhile_le _ _))

/-- What follows the pieces at a character is no longer than what follows the character. -/
theorem next_length_le (c : Char) (cs : List Char) : (next c cs).2.length ≤ cs.length := by
  unfold next
  split
  · exact Nat.le_refl _
  split
  · exact length_dropWhile_le _ _
  split
  · exact Nat.le_refl _
  split
  · exact takeNumber_length_le c cs
  split
  · exact length_dropWhile_le _ _
  split <;> exact Nat.le_refl _

/-- All pieces of a source text. -/
def split : List Char → List Piece
  | [] => []
  | c :: cs => (next c cs).1 ++ split (next c cs).2
termination_by cs => cs.length
decreasing_by exact Nat.lt_succ_of_le (next_length_le c cs)

end Piece

end BinaryPoint
