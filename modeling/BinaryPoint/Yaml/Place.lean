/-! # Places in a YAML text -/

namespace BinaryPoint.Yaml

/-- What is left of a text at a place, and where that place is. Lines and columns count
from zero. -/
structure Place where
  rest : List Char
  index : Nat := 0
  line : Nat := 0
  column : Nat := 0

/-- A character that ends a line. -/
def isBreak (c : Char) : Bool :=
  c = '\n' || c = '\r' || c = '\x85' || c = '\u2028' || c = '\u2029'

/-- A space, a tab, the end of a line, or the end of the text. -/
def isGap : Option Char → Bool
  | none => true
  | some c => c = ' ' || c = '\t' || isBreak c

namespace Place

/-- The character some places ahead. -/
def peek (p : Place) (ahead : Nat := 0) : Option Char := p.rest[ahead]?

/-- The place after one character. A byte order mark takes no column. -/
def step (p : Place) : Place :=
  match p.rest with
  | [] => p
  | c :: cs =>
    if isBreak c then ⟨cs, p.index + 1, p.line + 1, 0⟩
    else ⟨cs, p.index + 1, p.line, if c = '\ufeff' then p.column else p.column + 1⟩

/-- The place after some characters. -/
def advance (p : Place) : Nat → Place
  | 0 => p
  | n + 1 => p.step.advance n

/-- The place after all characters that pass a test. -/
def skipWhile (p : Place) (test : Char → Bool) : Place :=
  p.advance (p.rest.takeWhile test).length

/-- The end of a line at a place: the character that it counts as. -/
def breakHere? (p : Place) : Option Char :=
  match p.peek with
  | some c => if isBreak c then some (if c = '\u2028' || c = '\u2029' then c else '\n') else none
  | none => none

/-- Whether three marks of a kind and a gap follow: a line between documents. -/
def isMarker (p : Place) (mark : Char) : Bool :=
  p.rest.take 3 = [mark, mark, mark] && isGap (p.peek 3)

/-- Whether a line between documents follows. -/
def atMarker (p : Place) : Bool := p.isMarker '-' || p.isMarker '.'

end Place

end BinaryPoint.Yaml
