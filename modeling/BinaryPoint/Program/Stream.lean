import BinaryPoint.Binary64.Literal
import BinaryPoint.Program.Lexed

/-! # Reading a row of tokens

The state of a parser is the row of tokens that are still to be read. The end token is
never taken from it, so there always is a current token. A failing step leaves the row
as it was when the step failed, which is where recovery sets in.
-/

namespace BinaryPoint

/-- The tokens still to be read, and the one that stands for the end of the text. -/
structure Stream where
  pending : List Token
  ending : Token

namespace Stream

/-- The token that is read next. -/
def current (s : Stream) : Token := s.pending.headD s.ending

/-- More than the number of tokens: no part of the text is longer or deeper. -/
def limit (s : Stream) : Nat := s.pending.length + 1

/-- The stream of a lexed text. -/
def ofLexed (l : Lexed) : Stream := ⟨l.tokens, l.endToken⟩

/-- Whether only the end is left. -/
def atEnd (s : Stream) : Bool := s.pending.isEmpty

/-- The stream without its current token. -/
def advance (s : Stream) : Stream := { s with pending := s.pending.tail }

/-- The stream from the first token on that is no line break. -/
def skipNewlines (s : Stream) : Stream :=
  { s with pending := s.pending.dropWhile (·.kind = .newline) }

/-- The stream from the next line break on. -/
def skipLine (s : Stream) : Stream :=
  { s with pending := s.pending.dropWhile (·.kind ≠ .newline) }

end Stream

/-- A token that does not fit, and what should have stood there. -/
structure Mismatch where
  wanted : Wanted
  found : Token
deriving DecidableEq

namespace Mismatch

/-- The full wording of a mismatch. -/
def message (m : Mismatch) : String :=
  let lexeme := Text.quoted m.found.lexeme
  match m.wanted with
  | .expression => s!"Expected expression, got {m.found.kind.text} {lexeme}"
  | .format =>
    s!"Expected a format (sfix<I, F>, ufix<I, F> or a preset name), got {lexeme}"
  | .shortInteger => s!"Integer literal with {m.found.lexeme.length} digits is too long"
  | .endOfLine => s!"Unexpected {lexeme} after declaration"
  | .declaration => s!"Expected 'const' declaration, got {lexeme}"
  | wanted => s!"{wanted.text} (got {m.found.kind.text} {lexeme})"

/-- A mismatch as a diagnostic. -/
def diagnostic (m : Mismatch) : Diagnostic := .errorAt m.message m.found.place

end Mismatch

/-- Why a parser stops: a mismatch, which is reported and recovered from, or a real literal
whose digits are none to a reader of numbers, which ends the parse. -/
inductive ParseFailure
  | mismatch (m : Mismatch)
  | unreadable (lexeme : String)

namespace ParseFailure

/-- A failure as a fault. -/
def fault : ParseFailure → Fault
  | mismatch m => .badSyntax m.wanted m.found.place
  | unreadable lexeme => .notNumberText lexeme

/-- What is reported of a failure. -/
def diagnostics : ParseFailure → List Diagnostic
  | mismatch m => [m.diagnostic]
  | unreadable _ => []

end ParseFailure

/-- A parser takes tokens from a stream and gives a value or a failure. -/
abbrev Parser (α : Type) := EStateM ParseFailure Stream α

namespace Parser

/-- The current token. -/
def peek : Parser Token := do return (← get).current

/-- Takes the current token. -/
def next : Parser Token := do
  let t ← peek
  modify Stream.advance
  return t

/-- Whether the current token is of a kind. -/
def sees (kind : TokenKind) : Parser Bool := do return (← peek).kind = kind

/-- Fails at a token. -/
def mismatch {α : Type} (wanted : Wanted) (found : Token) : Parser α :=
  throw (.mismatch ⟨wanted, found⟩)

/-- Takes a token of a kind. -/
def expect (kind : TokenKind) (wanted : Wanted) : Parser Token := do
  let t ← peek
  if t.kind = kind then next else mismatch wanted t

/-- Takes a token of a kind if that is the current one. -/
def accept (kind : TokenKind) : Parser Bool := do
  if ← sees kind then
    let _ ← next
    return true
  return false

/-- Skips line breaks. -/
def skipNewlines : Parser Unit := modify Stream.skipNewlines

/-- The number that an integer token denotes. -/
def integerValue (t : Token) : Parser Nat :=
  match Decimal.readDigits t.lexeme.toList with
  | .ok n => pure n
  | .error _ => mismatch .shortInteger t

/-- The number that a real token denotes. -/
def realValue (t : Token) : Parser Binary64 :=
  match Binary64.ofText? t.lexeme with
  | some x => pure x
  | none => throw (.unreadable t.lexeme)

end Parser

end BinaryPoint
