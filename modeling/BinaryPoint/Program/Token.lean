import BinaryPoint.Location

/-! # Tokens of constant programs -/

namespace BinaryPoint

/-- What a token is. -/
inductive TokenKind
  | program | const | within | sfix | ufix
  | plus | minus | star | slash
  | leftParen | rightParen | leftBracket | rightBracket
  | colon | comma | equals | leftAngle | rightAngle
  | integer | real | name
  | newline | endOfText
deriving DecidableEq, Repr

namespace TokenKind

/-- The name of a kind in messages. -/
def text : TokenKind → String
  | .program => "PROGRAM" | .const => "CONST" | .within => "WITHIN"
  | .sfix => "SFIX" | .ufix => "UFIX"
  | .plus => "PLUS" | .minus => "MINUS" | .star => "STAR" | .slash => "SLASH"
  | .leftParen => "LPAREN" | .rightParen => "RPAREN"
  | .leftBracket => "LBRACKET" | .rightBracket => "RBRACKET"
  | .colon => "COLON" | .comma => "COMMA" | .equals => "EQUALS"
  | .leftAngle => "LANGLE" | .rightAngle => "RANGLE"
  | .integer => "INT_LIT" | .real => "FLOAT_LIT" | .name => "IDENT"
  | .newline => "NEWLINE" | .endOfText => "EOF"

/-- The kind of a word: a keyword, or else a name. -/
def ofWord (w : String) : TokenKind :=
  if w = "program" then .program
  else if w = "const" then .const
  else if w = "within" then .within
  else if w = "sfix" then .sfix
  else if w = "ufix" then .ufix
  else .name

/-- The kind of a single mark. -/
def ofMark? : Char → Option TokenKind
  | '+' => some .plus
  | '-' => some .minus
  | '*' => some .star
  | '/' => some .slash
  | '(' => some .leftParen
  | ')' => some .rightParen
  | '[' => some .leftBracket
  | ']' => some .rightBracket
  | ':' => some .colon
  | ',' => some .comma
  | '=' => some .equals
  | '<' => some .leftAngle
  | '>' => some .rightAngle
  | _ => none

end TokenKind

/-- A token with its text and the position of its first character. -/
structure Token where
  kind : TokenKind
  lexeme : String
  place : Location
deriving DecidableEq, Repr

end BinaryPoint
