/-! # Ends of lines

A text file may end its lines in three ways. Once read, every line ends with a line
feed.
-/

namespace BinaryPoint.Text

/-- A carriage return, alone or before a line feed, becomes a line feed. -/
def unifyLineEnds : List Char → List Char
  | [] => []
  | '\r' :: '\n' :: cs => '\n' :: unifyLineEnds cs
  | '\r' :: cs => '\n' :: unifyLineEnds cs
  | c :: cs => c :: unifyLineEnds cs

/-- The content of a text file as programs see it. -/
def readText (content : String) : String := String.ofList (unifyLineEnds content.toList)

end BinaryPoint.Text
