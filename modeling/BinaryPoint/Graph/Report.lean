import BinaryPoint.Format.Checked
import BinaryPoint.Graph.Basic
import BinaryPoint.JsonValue

/-! # Written form of graphs

The constants of a program as a table for people and as JSON for other programs.
-/

namespace BinaryPoint

namespace Constant

/-- The values as the table shows them: a list of samples stands in brackets. -/
def valuesText (c : Constant) : String :=
  let values := ", ".intercalate (c.reals.map Binary64.text)
  if c.scalar then values else "[" ++ values ++ "]"

/-- A constant as a line of the table. -/
def row (c : Constant) : Except Fault String := do
  let key ← c.format.keyText
  .ok s!"  {Text.padRight 20 c.name} {Text.padRight 14 key} = {c.valuesText}"

/-- A constant in JSON. -/
def toJson (c : Constant) : Except Fault JsonValue := do
  .ok (.object
    [ ("name", .text c.name),
      ("format", .text (← c.format.keyText)),
      ("signed", .bool c.format.signed),
      ("integer_bits", .int c.format.integerBits),
      ("fractional_bits", .int c.format.fractionalBits),
      ("tolerance", (c.tolerance.map JsonValue.real).getD .null),
      ("values", .list (c.reals.map .real)),
      ("raw", .list (c.values.map fun v => .int v.raw)) ])

end Constant

namespace Graph

/-- The lines of the table: the name of the program if it has one, then its constants. -/
def table (g : Graph) : Except Fault (List String) := do
  let title := match g.name with
    | some name => if name.isEmpty then [] else [s!"program {name}"]
    | none => []
  .ok (title ++ (← g.constants.mapM Constant.row))

/-- A graph in JSON. -/
def toJson (g : Graph) : Except Fault JsonValue := do
  .ok (.object
    [ ("program", (g.name.map JsonValue.text).getD .null),
      ("constants", .list (← g.constants.mapM Constant.toJson)) ])

end Graph

end BinaryPoint
