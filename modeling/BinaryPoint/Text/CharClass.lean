import BinaryPoint.Text.PropertyBounds

/-! # Character classes

What counts as a letter, a digit, white space or a shown character, for every
code point. The lexer, the readers of numbers and the quoting of text all ask
here, so that they agree.
-/

namespace BinaryPoint.Text

/-- Walks the boundaries of a property up to `code`; each one that is passed
switches membership. -/
def memberAt (code : Nat) : Bool → List Nat → Bool
  | inside, [] => inside
  | inside, b :: bs => if code < b then inside else memberAt code (!inside) bs

/-- A letter of any script. -/
def isLetter (c : Char) : Bool := memberAt c.toNat false letterBounds

/-- A character with a numeric value that is no letter. -/
def isNumeric (c : Char) : Bool := memberAt c.toNat false numericBounds

/-- A character that stands for one digit, in whatever typographic shape. -/
def isDigit (c : Char) : Bool := memberAt c.toNat false digitBounds

/-- A letter or a numeric character: what a word may go on with, besides `_`. -/
def isAlphanumeric (c : Char) : Bool := isLetter c || isNumeric c

/-- White space. -/
def isBlank (c : Char) : Bool := memberAt c.toNat false blankBounds

/-- A character that quoted text replaces by an escape. -/
def isHidden (c : Char) : Bool := memberAt c.toNat false hiddenBounds

/-- The value of a decimal digit of any script; shapes such as `²` have none. -/
def digitValue? (c : Char) : Option Nat :=
  (decimalZeros.find? fun z => z ≤ c.toNat && c.toNat < z + 10).map (c.toNat - ·)

/-- The text without the white space at both ends. -/
def trimBlanks (cs : List Char) : List Char :=
  ((cs.dropWhile isBlank).reverse.dropWhile isBlank).reverse

end BinaryPoint.Text
