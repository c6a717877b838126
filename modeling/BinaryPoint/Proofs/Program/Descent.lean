import BinaryPoint.Program.Parser

/-! # Descent through a list of tokens

Parsing by a position in a list of tokens, of which the last one stands for the end of the text.
The position may be any number, and looking past the end of the list is an outcome of its own.
A syntax error is reported by one step and raised by the next one. No part knows how many tokens
are left. A loop is a function that calls itself, and what calls itself is told how deep the calls
may go; if they would go deeper, there is no outcome at all.

* `State`, `Halt`: what a descent knows, and what may end it;
* `expression`, `value`, `format`, `declaration`, `header` and their like: the parts of a program;
* `round`, `program`: one round of the loop over the statements, and the whole descent.
-/

namespace BinaryPoint

namespace Descent

/-- What a descent knows: the position of the current token, everything reported and all the
declarations up to there, and how often the rest of a line was given up. -/
structure State where
  position : Nat := 0
  reported : List Diagnostic := []
  statements : List Decl := []
  recoveries : Nat := 0

/-- What may end a descent before its time. -/
inductive Halt
  | syntaxError (wanted : Wanted) (place : Location)
  | beyondTokens
  | unreadable (lexeme : String)

end Descent

/-- A descent through a list of tokens. It has no outcome if its calls go too deep. -/
abbrev Descent (α : Type) :=
  ReaderT (List Token) (ExceptT Descent.Halt (StateT Descent.State Option)) α

namespace Descent

/-! ## Tokens -/

/-- The current token. -/
def peek : Descent Token := do
  match (← read)[(← get).position]? with
  | some t => return t
  | none => throw .beyondTokens

/-- Whether the current token is the end. -/
def atEnd : Descent Bool := do return (← peek).kind = .endOfText

/-- Takes the current token; the end is never taken. -/
def advance : Descent Token := do
  let t ← peek
  if t.kind ≠ .endOfText then modify fun s => { s with position := s.position + 1 }
  return t

/-- Whether the current token is of a kind. -/
def sees (kind : TokenKind) : Descent Bool := do return (← peek).kind = kind

/-- Takes the current token if it is of one of the kinds. -/
def accept : List TokenKind → Descent (Option Token)
  | [] => return none
  | kind :: kinds => do
    if ← sees kind then return some (← advance)
    accept kinds

/-- Reports a mismatch. -/
def report (m : Mismatch) : Descent Unit :=
  modify fun s => { s with reported := s.reported ++ [m.diagnostic] }

/-- Raises a syntax error. -/
def raise {α : Type} (wanted : Wanted) (place : Location) : Descent α :=
  throw (.syntaxError wanted place)

/-- Takes a token of a kind. -/
def expect (kind : TokenKind) (wanted : Wanted) : Descent Token := do
  let t ← peek
  if t.kind = kind then return ← advance
  report ⟨wanted, t⟩
  raise wanted t.place

/-- The calls have gone too deep. -/
def tooDeep {α : Type} : Descent α := fun _ => .mk fun _ => none

/-- The number that an integer token denotes. -/
def integerValue (t : Token) : Descent Nat := do
  match Decimal.readDigits t.lexeme.toList with
  | .ok n => return n
  | .error _ =>
    report ⟨.shortInteger, t⟩
    raise .shortInteger t.place

/-- The number that a real token denotes. -/
def realValue (t : Token) : Descent Binary64 := do
  match Binary64.ofText? t.lexeme with
  | some x => return x
  | none => throw (.unreadable t.lexeme)

/-- Skips line breaks. -/
def skipNewlines : Nat → Descent Unit
  | 0 => tooDeep
  | depth + 1 => do
    if ← sees .newline then
      let _ ← advance
      skipNewlines depth

/-- Skips what is left of a line. -/
def skipToNewline : Nat → Descent Unit
  | 0 => tooDeep
  | depth + 1 => do
    if ← atEnd then return
    if ← sees .newline then return
    let _ ← advance
    skipToNewline depth

/-! ## Expressions -/

mutual

/-- A sum. -/
def expression : Nat → Descent Expr
  | 0 => tooDeep
  | depth + 1 => do moreTerms depth (← product depth)

/-- Goes on with a sum. -/
def moreTerms (depth : Nat) (left : Expr) : Descent Expr :=
  match depth with
  | 0 => tooDeep
  | depth + 1 => do
    match Expr.sumOperator? (← peek).kind with
    | none => return left
    | some op =>
      let t ← advance
      let right ← product depth
      moreTerms depth (.binary op left right (some t.place))

/-- A product. -/
def product : Nat → Descent Expr
  | 0 => tooDeep
  | depth + 1 => do moreFactors depth (← unary depth)

/-- Goes on with a product. -/
def moreFactors (depth : Nat) (left : Expr) : Descent Expr :=
  match depth with
  | 0 => tooDeep
  | depth + 1 => do
    match Expr.productOperator? (← peek).kind with
    | none => return left
    | some op =>
      let t ← advance
      let right ← unary depth
      moreFactors depth (.binary op left right (some t.place))

/-- An operand after any number of minus signs. -/
def unary : Nat → Descent Expr
  | 0 => tooDeep
  | depth + 1 => do
    match ← accept [.minus] with
    | some t => return .unary "-" (← unary depth) (some t.place)
    | none => primary depth

/-- A number, a name, or an expression in parentheses. -/
def primary : Nat → Descent Expr
  | 0 => tooDeep
  | depth + 1 => do
    let t ← peek
    match t.kind with
    | .integer =>
      let _ ← advance
      return .integer (← integerValue t) (some t.place)
    | .real =>
      let _ ← advance
      return .real (← realValue t) (some t.place)
    | .name =>
      let _ ← advance
      return .name t.lexeme (some t.place)
    | .leftParen =>
      let _ ← advance
      let e ← expression depth
      let _ ← expect .rightParen .closeParen
      return .paren e (some t.place)
    | _ =>
      report ⟨.expression, t⟩
      raise .expression t.place

end

/-! ## Values -/

/-- Goes on with samples; a comma may stand after the last one. -/
def moreSamples : Nat → List Expr → Descent (List Expr)
  | 0, _ => tooDeep
  | depth + 1, samples => do
    match ← accept [.comma] with
    | none => return samples
    | some _ =>
      skipNewlines depth
      if ← sees .rightBracket then return samples
      let e ← expression depth
      skipNewlines depth
      moreSamples depth (samples ++ [e])

/-- The samples between two brackets, over any number of lines. -/
def samples (depth : Nat) : Descent (List Expr) := do
  skipNewlines depth
  if ← sees .rightBracket then return []
  let e ← expression depth
  skipNewlines depth
  moreSamples depth [e]

/-- A list of samples. -/
def sampleList (depth : Nat) : Descent Expr := do
  let t ← expect .leftBracket .openBracket
  let es ← samples depth
  let _ ← expect .rightBracket .closeBracket
  return .list es (some t.place)

/-- A value: a list of samples or an expression. -/
def value (depth : Nat) : Descent Expr := do
  if ← sees .leftBracket then return ← sampleList depth
  expression depth

/-! ## Declarations -/

/-- One of the two widths of a format. -/
def width (wanted : Wanted) : Descent Nat := do integerValue (← expect .integer wanted)

/-- The widths of a format, after the word for its sign. -/
def widths (sign : Token) : Descent FormatNote := do
  let signed := decide (sign.kind = .sfix)
  let _ ← expect .leftAngle (.openAngle signed)
  let integerBits ← width .integerWidth
  let _ ← expect .comma .widthComma
  let fractionalBits ← width .fractionalWidth
  let _ ← expect .rightAngle .closeAngle
  return .explicit (.bool signed) integerBits fractionalBits (some sign.place)

/-- A format: written out, or the name of a preset. -/
def format : Descent FormatNote := do
  let t ← peek
  if t.kind = .name then
    let _ ← advance
    return .preset t.lexeme (some t.place)
  match ← accept [.sfix, .ufix] with
  | some sign => widths sign
  | none =>
    report ⟨.format, t⟩
    raise .format t.place

/-- The format of a declaration, if it has one. -/
def format? : Descent (Option FormatNote) := do
  match ← accept [.colon] with
  | none => return none
  | some _ => return some (← format)

/-- The tolerance of a declaration, if it has one. -/
def tolerance? (depth : Nat) : Descent (Option Expr) := do
  match ← accept [.within] with
  | none => return none
  | some _ => return some (← expression depth)

/-- A declaration, without the end of its line. -/
def declaration (depth : Nat) : Descent Decl := do
  let first ← expect .const .const
  let name ← expect .name .constName
  let note ← format?
  let _ ← expect .equals .equals
  let v ← value depth
  let tolerance ← tolerance? depth
  return ⟨name.lexeme, v, note, tolerance, some first.place⟩

/-- Nothing may stand between a declaration and the end of its line. -/
def endOfStatement : Descent Unit := do
  if ← sees .newline then return
  if ← atEnd then return
  let t ← peek
  report ⟨.endOfLine, t⟩
  raise .endOfLine t.place

/-! ## Programs -/

/-- Gives up the rest of a line. -/
def recover (depth : Nat) : Descent Unit := do
  modify fun s => { s with recoveries := s.recoveries + 1 }
  skipToNewline depth

/-- A part of a program. If there is a syntax error in it, the rest of the line is given up. -/
def recovering {α : Type} (depth : Nat) (x : Descent α) : Descent (Option α) :=
  tryCatch (some <$> x) fun
    | .syntaxError .. => do
      recover depth
      return none
    | halt => throw halt

/-- The header of a program. -/
def header : Descent String := do
  let _ ← advance
  let name ← expect .name .programName
  let _ ← expect .colon .colonAfterProgram
  return name.lexeme

/-- A declaration and the end of its line. It counts even if something stands after it. -/
def statement (depth : Nat) : Descent Unit := do
  let d ← declaration depth
  modify fun s => { s with statements := s.statements ++ [d] }
  endOfStatement

/-- One round of the loop over the statements, and whether another one follows. -/
def round (depth : Nat) : Descent Bool := do
  skipNewlines depth
  if ← atEnd then return false
  if ← sees .const then
    let _ ← recovering depth (statement depth)
    return true
  report ⟨.declaration, ← peek⟩
  recover depth
  return true

/-- The loop over the statements. -/
def statements : Nat → Descent Unit
  | 0 => tooDeep
  | depth + 1 => do if ← round depth then statements depth

/-- The name of a program, if it has a header that is in order. -/
def name? (depth : Nat) : Descent (Option String) := do
  skipNewlines depth
  if ← sees .program then return ← recovering depth header
  return none

/-- A program. -/
def program (depth : Nat) : Descent Program := do
  let first ← peek
  let name ← name? depth
  statements depth
  return ⟨name, (← get).statements, some first.place⟩

end Descent

end BinaryPoint
