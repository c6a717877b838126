import BinaryPoint.Diagnostic
import BinaryPoint.Program.Piece

/-! # Lexed programs

The tokens of a source text with their positions, and what was found wrong with its
characters. The pieces of the text are laid out one after the other; each piece then
gives at most one token and at most one diagnostic, whatever stands around it, except
that the line breaks of a run of empty lines give a single token.
-/

namespace BinaryPoint

/-- A place between two characters of a text. -/
structure Cursor where
  line : Nat := 1
  column : Nat := 1
deriving DecidableEq, Repr

namespace Cursor

/-- The place after one more character. -/
def step (p : Cursor) (c : Char) : Cursor :=
  if c = '\n' then ⟨p.line + 1, 1⟩ else ⟨p.line, p.column + 1⟩

/-- The place after more characters. -/
def advance (p : Cursor) (cs : List Char) : Cursor := cs.foldl step p

/-- The place in a named file. -/
def inFile (p : Cursor) (file : String) : Location := ⟨file, p.line, p.column⟩

end Cursor

namespace Piece

/-- Pieces with the place where each one starts. -/
def layOut : Cursor → List Piece → List (Cursor × Piece)
  | _, [] => []
  | p, x :: xs => (p, x) :: layOut (p.advance x.text) xs

/-- What is wrong with a piece. A broken exponent is reported where its digits should be. -/
def diagnostic? (file : String) (p : Cursor) (x : Piece) : Option Diagnostic :=
  match x.kind with
  | .stray =>
    some (.errorAt s!"Unexpected character: {Text.quoted (.ofList x.text)}" (p.inFile file))
  | .brokenExponent =>
    some (.errorAt "Expected digits after exponent in float literal"
      ((p.advance x.text).inFile file))
  | _ => none

/-- The tokens of pieces. A line break counts only if `filled`: something other than blanks
and comments stands on the lines since the last one that counted. -/
def tokens (file : String) : Bool → List (Cursor × Piece) → List Token
  | _, [] => []
  | filled, (p, x) :: xs =>
    match x.kind with
    | .token kind => ⟨kind, .ofList x.text, p.inFile file⟩ :: tokens file true xs
    | .lineBreak =>
      if filled then ⟨.newline, "\\n", p.inFile file⟩ :: tokens file false xs
      else tokens file false xs
    | .stray => tokens file true xs
    | .blank | .comment | .brokenExponent => tokens file filled xs

end Piece

/-- The tokens of a text, the place where it ends, and its lexical errors. -/
structure Lexed where
  tokens : List Token
  ending : Location
  diagnostics : List Diagnostic

namespace Lexed

/-- Lexes a source text. -/
def ofText (source file : String) : Lexed :=
  let cs := source.toList
  let pieces := Piece.layOut {} (Piece.split cs)
  { tokens := Piece.tokens file false pieces
    ending := (Cursor.advance {} cs).inFile file
    diagnostics := pieces.filterMap fun x => x.2.diagnostic? file x.1 }

/-- The token that stands for the end of the text. -/
def endToken (l : Lexed) : Token := ⟨.endOfText, "", l.ending⟩

end Lexed

end BinaryPoint
