/-! # Positions in a source text -/

namespace BinaryPoint

/-- A position in a named source text. In a text, lines and columns start at 1 and columns
count code points; a position that comes from elsewhere may hold any numbers. -/
structure Location where
  file : String
  line : Int
  column : Int
deriving DecidableEq, Repr

/-- The position as diagnostics show it. -/
def Location.text (l : Location) : String := s!"{l.file}:{l.line}:{l.column}"

end BinaryPoint
