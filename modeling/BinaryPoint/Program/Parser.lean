import BinaryPoint.Expr.Parser
import BinaryPoint.Program.Basic

/-! # Parsing of programs

A program has a declaration a line, after an optional header. A mismatch is reported
once and the rest of its line is skipped, so that it costs no later declaration. Only the
lists of samples may go over several lines.
-/

namespace BinaryPoint

/-- One of the two widths of a format. -/
def FormatNote.parseWidth (wanted : Wanted) : Parser Nat := do
  Parser.integerValue (← Parser.expect .integer wanted)

/-- The widths of a format, after the word for its sign. -/
def FormatNote.parseWidths (signed : Bool) (place : Location) : Parser FormatNote := do
  let _ ← Parser.expect .leftAngle (.openAngle signed)
  let integerBits ← parseWidth .integerWidth
  let _ ← Parser.expect .comma .widthComma
  let fractionalBits ← parseWidth .fractionalWidth
  let _ ← Parser.expect .rightAngle .closeAngle
  return .explicit (.bool signed) integerBits fractionalBits (some place)

/-- A format: written out, or the name of a preset. -/
def FormatNote.parse : Parser FormatNote := do
  let t ← Parser.peek
  match t.kind with
  | .name =>
    let t ← Parser.next
    return .preset t.lexeme (some t.place)
  | .sfix =>
    let t ← Parser.next
    parseWidths true t.place
  | .ufix =>
    let t ← Parser.next
    parseWidths false t.place
  | _ => Parser.mismatch .format t

namespace Decl

/-- Goes on with samples after the first one; a comma may stand after the last. -/
def parseMoreSamples (depth : Nat) : Nat → Parser (List Expr)
  | 0 => pure []
  | limit + 1 => do
    if ← Parser.accept .comma then
      Parser.skipNewlines
      if ← Parser.sees .rightBracket then return []
      let e ← Expr.parse depth
      Parser.skipNewlines
      return e :: (← parseMoreSamples depth limit)
    return []

/-- The samples between two brackets. -/
def parseSamples (limit : Nat) : Parser (List Expr) := do
  Parser.skipNewlines
  if ← Parser.sees .rightBracket then return []
  let e ← Expr.parse limit
  Parser.skipNewlines
  return e :: (← parseMoreSamples limit limit)

/-- A value: a list of samples or an expression. -/
def parseValue (limit : Nat) : Parser Expr := do
  if ← Parser.sees .leftBracket then
    let t ← Parser.next
    let samples ← parseSamples limit
    let _ ← Parser.expect .rightBracket .closeBracket
    return .list samples (some t.place)
  Expr.parse limit

/-- The format of a declaration, if it has one. -/
def parseFormat? : Parser (Option FormatNote) := do
  if ← Parser.accept .colon then return some (← FormatNote.parse)
  return none

/-- The tolerance of a declaration, if it has one. -/
def parseTolerance? (limit : Nat) : Parser (Option Expr) := do
  if ← Parser.accept .within then return some (← Expr.parse limit)
  return none

/-- A declaration, without the end of its line. -/
def parse (limit : Nat) : Parser Decl := do
  let first ← Parser.expect .const .const
  let name ← Parser.expect .name .constName
  let format ← parseFormat?
  let _ ← Parser.expect .equals .equals
  let value ← parseValue limit
  let tolerance ← parseTolerance? limit
  return ⟨name.lexeme, value, format, tolerance, some first.place⟩

end Decl

namespace Program

/-- The header of a program. -/
def parseHeader : Parser String := do
  let _ ← Parser.expect .program .programName
  let name ← Parser.expect .name .programName
  let _ ← Parser.expect .colon .colonAfterProgram
  return name.lexeme

/-- Declarations, and the mismatches on the way, in the order of the text. -/
structure Statements where
  decls : List Decl := []
  mismatches : List Mismatch := []

/-- The statements with one more mismatch in front. -/
def Statements.after (m : Mismatch) (s : Statements) : Statements :=
  { s with mismatches := m :: s.mismatches }

/-- The statements with one more declaration in front. -/
def Statements.afterDecl (d : Decl) (s : Statements) : Statements :=
  { s with decls := d :: s.decls }

/-- Reads at most so many lines. A declaration counts even if something stands after it. -/
def parseLines (limit : Nat) : Nat → Stream → Except ParseFailure Statements
  | 0, _ => .ok {}
  | lines + 1, s =>
    let s := s.skipNewlines
    if s.atEnd then .ok {}
    else if s.current.kind ≠ .const then
      (parseLines limit lines s.skipLine).map (.after ⟨.declaration, s.current⟩)
    else
      match (Decl.parse limit).run s with
      | .ok d s =>
        let endsHere := s.atEnd || s.current.kind = .newline
        let others := parseLines limit lines s.skipLine
        if endsHere then others.map (.afterDecl d)
        else others.map fun o => (o.after ⟨.endOfLine, s.current⟩).afterDecl d
      | .error (.mismatch m) s => (parseLines limit lines s.skipLine).map (.after m)
      | .error f _ => .error f

/-- Reads a header if there is one, and leaves the stream where the statements start. A
header that is not in order gives the program no name. -/
def parseName (s : Stream) : Except ParseFailure (Option String × List Mismatch × Stream) :=
  let s := s.skipNewlines
  if s.current.kind = .program then
    match parseHeader.run s with
    | .ok name s => .ok (some name, [], s)
    | .error (.mismatch m) s => .ok (none, [m], s.skipLine)
    | .error f _ => .error f
  else .ok (none, [], s)

/-- Reads a program. No expression is deeper, and no row longer, than the number of tokens. -/
def ofStream (s : Stream) : Except ParseFailure (Program × List Mismatch) := do
  let limit := s.limit
  let (name, mismatches, rest) ← parseName s
  let lines ← parseLines limit limit rest
  .ok (⟨name, lines.decls, some s.current.place⟩, mismatches ++ lines.mismatches)

/-- Lexes and parses a source text; gives the program and everything that was reported. -/
def parse (source file : String) : Except Fault (Program × List Diagnostic) :=
  let lexed := Lexed.ofText source file
  match ofStream (.ofLexed lexed) with
  | .ok (program, mismatches) =>
    .ok (program, lexed.diagnostics ++ mismatches.map Mismatch.diagnostic)
  | .error f => refuse f.fault

end Program

end BinaryPoint
