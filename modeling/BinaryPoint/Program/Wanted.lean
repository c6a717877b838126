/-! # What the parser was looking for

A syntax error is named by what should have stood at its place.
-/

namespace BinaryPoint

/-- What should have stood where a program could not be parsed. -/
inductive Wanted
  | programName
  | colonAfterProgram
  | const
  | constName
  | equals
  | format
  | openAngle (signed : Bool)
  | integerWidth
  | fractionalWidth
  | widthComma
  | closeAngle
  | openBracket
  | closeBracket
  | closeParen
  | expression
  | shortInteger
  | endOfLine
  | declaration
deriving DecidableEq, Repr

/-- The error's short wording. -/
def Wanted.text : Wanted → String
  | .programName => "Expected identifier after 'program'"
  | .colonAfterProgram => "Expected ':' after program name"
  | .const => "Expected 'const'"
  | .constName => "Expected identifier after 'const'"
  | .equals => "Expected '=' after const name"
  | .format => "Expected format"
  | .openAngle signed => if signed then "Expected '<' after 'sfix'" else "Expected '<' after 'ufix'"
  | .integerWidth => "Expected integer bit count"
  | .fractionalWidth => "Expected fractional bit count"
  | .widthComma => "Expected ',' between integer and fractional bits"
  | .closeAngle => "Expected '>' to close format"
  | .openBracket => "Expected '['"
  | .closeBracket => "Expected ']'"
  | .closeParen => "Expected ')' after expression"
  | .expression => "Expected expression"
  | .shortInteger => "Integer literal too long"
  | .endOfLine => "Expected end of line"
  | .declaration => "Expected a declaration"

end BinaryPoint
