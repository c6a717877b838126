import BinaryPoint.Datum.Basic
import BinaryPoint.Binary64.Shortest
import BinaryPoint.Decimal.Integer
import BinaryPoint.Text.Quoted

/-! # Shown form of untyped data

The form in which messages show a value, with text quoted. Integers that are too
long to be written make the whole value impossible to show.
-/

namespace BinaryPoint.Datum

/-- The spelling of a truth value. -/
def boolText (b : Bool) : String := if b then "True" else "False"

mutual
/-- A value as messages show it. -/
def shown? : Datum → Option String
  | .null => some "None"
  | .bool b => some (boolText b)
  | .int n => Decimal.write? n
  | .real x => some x.text
  | .text s => some (Text.quoted s)
  | .date y m d => some s!"datetime.date({y}, {m}, {d})"
  | .list items => do
    let parts ← shownItems? items
    some ("[" ++ ", ".intercalate parts ++ "]")
  | .map entries => do
    let parts ← shownEntries? entries
    some ("\x7b" ++ ", ".intercalate parts ++ "\x7d")

/-- The items of a list. -/
def shownItems? : List Datum → Option (List String)
  | [] => some []
  | a :: as => do
    let first ← shown? a
    let others ← shownItems? as
    some (first :: others)

/-- The entries of a mapping. -/
def shownEntries? : List (Datum × Datum) → Option (List String)
  | [] => some []
  | (k, v) :: as => do
    let key ← shown? k
    let value ← shown? v
    let others ← shownEntries? as
    some ((key ++ ": " ++ value) :: others)
end

/-- `n` with zeros in front, at least `width` digits. -/
def zeroPadded (width n : Nat) : String :=
  let ds := Nat.toDigits 10 n
  String.ofList (List.replicate (width - ds.length) '0' ++ ds)

/-- A value on its own: text as it is, all else as messages show it. -/
def plain? : Datum → Option String
  | .text s => some s
  | .date y m d => some (zeroPadded 4 y ++ "-" ++ zeroPadded 2 m ++ "-" ++ zeroPadded 2 d)
  | v => v.shown?

end BinaryPoint.Datum
