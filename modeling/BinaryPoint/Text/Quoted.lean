import BinaryPoint.Text.CharClass

/-! # Quoted text

The one-line form in which messages show a piece of text: between quotation
marks, with every character that would not be seen as itself escaped.
-/

namespace BinaryPoint.Text

/-- `n` in lower-case hexadecimal, filled up with zeros to `width` digits. -/
def hexDigits (width n : Nat) : List Char :=
  let ds := Nat.toDigits 16 n
  List.replicate (width - ds.length) '0' ++ ds

/-- The escape of a code point: two, four or eight hexadecimal digits, as it needs. -/
def codeEscape (code : Nat) : List Char :=
  if code ≤ 0xff then '\\' :: 'x' :: hexDigits 2 code
  else if code ≤ 0xffff then '\\' :: 'u' :: hexDigits 4 code
  else '\\' :: 'U' :: hexDigits 8 code

/-- One character between the given quotation marks. -/
def quoteChar (mark c : Char) : List Char :=
  if c = mark || c = '\\' then ['\\', c]
  else if c = '\t' then ['\\', 't']
  else if c = '\n' then ['\\', 'n']
  else if c = '\r' then ['\\', 'r']
  else if isHidden c then codeEscape c.toNat
  else [c]

/-- Apostrophes, unless the text holds one and no double quotation mark. -/
def quoteMark (cs : List Char) : Char :=
  if cs.contains '\'' && !cs.contains '"' then '"' else '\''

/-- The text between quotation marks, escaped so that it stays on one line. -/
def quoted (s : String) : String :=
  let mark := quoteMark s.toList
  String.ofList (mark :: s.toList.flatMap (quoteChar mark) ++ [mark])

/-- Fills a text up with spaces on the right; longer texts stay as they are. -/
def padRight (width : Nat) (s : String) : String :=
  s ++ String.ofList (List.replicate (width - s.length) ' ')

end BinaryPoint.Text
