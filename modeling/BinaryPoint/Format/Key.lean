import BinaryPoint.Decimal.Integer
import BinaryPoint.Format

/-! # Format keys

A format is written `sfix<I,F>` or `ufix<I,F>`. Writing is unique; reading lets white
space stand around each mark and at both ends, leading zeros, and the decimal digits
of any script.
-/

namespace BinaryPoint.Format

/-- The word that tells signed from unsigned formats. -/
def word (signed : Bool) : String := if signed then "sfix" else "ufix"

/-- The key of a format, whatever the length of its widths. -/
def key (f : Format) : String :=
  word f.signed ++ "<" ++ toString f.integerBits ++ "," ++ toString f.fractionalBits ++ ">"

/-- The key of a format, if both widths are short enough to be written. -/
def key? (f : Format) : Option String := do
  let i ← Decimal.write? f.integerBits
  let r ← Decimal.write? f.fractionalBits
  some (word f.signed ++ "<" ++ i ++ "," ++ r ++ ">")

/-- The name of the value type that belongs to a format, such as `SFix1_4`. -/
def typeName? (f : Format) : Option String := do
  let i ← Decimal.write? f.integerBits
  let r ← Decimal.write? f.fractionalBits
  some ((if f.signed then "SFix" else "UFix") ++ i ++ "_" ++ r)

/-- The rest of a text after one mark, white space before the mark skipped. -/
def skipMark (mark : Char) (cs : List Char) : Option (List Char) :=
  match cs.dropWhile Text.isBlank with
  | c :: rest => if c = mark then some rest else none
  | [] => none

/-- A non-empty row of decimal digits, white space before it skipped, and the rest. -/
def takeWidth (cs : List Char) : Option (List Char × List Char) :=
  let cs := cs.dropWhile Text.isBlank
  let isDecimal (c : Char) := (Text.digitValue? c).isSome
  match cs.takeWhile isDecimal with
  | [] => none
  | ds => some (ds, cs.dropWhile isDecimal)

/-- The word of a key, and the rest. -/
def takeWord (cs : List Char) : Option (Bool × List Char) :=
  match cs.dropWhile Text.isBlank with
  | 's' :: 'f' :: 'i' :: 'x' :: rest => some (true, rest)
  | 'u' :: 'f' :: 'i' :: 'x' :: rest => some (false, rest)
  | _ => none

/-- Splits a key into its sign and the digits of its two widths. -/
def splitKey (cs : List Char) : Option (Bool × List Char × List Char) := do
  let (signed, cs) ← takeWord cs
  let (integer, cs) ← takeWidth (← skipMark '<' cs)
  let (fraction, cs) ← takeWidth (← skipMark ',' cs)
  let cs ← skipMark '>' cs
  if cs.all Text.isBlank then some (signed, integer, fraction) else none

/-- Why a text is not read as a key. -/
inductive KeyFailure
  | malformed
  | tooManyDigits (count : Nat)
deriving DecidableEq, Repr

/-- One width of a key. -/
def readWidth (ds : List Char) : Except KeyFailure Nat :=
  match Decimal.readDigits ds with
  | .ok n => .ok n
  | .error .notDigits => .error .malformed
  | .error (.tooManyDigits n) => .error (.tooManyDigits n)

/-- Reads a format key. -/
def ofKey (s : String) : Except KeyFailure Format :=
  match splitKey s.toList with
  | none => .error .malformed
  | some (signed, integer, fraction) => do
    let i ← readWidth integer
    let f ← readWidth fraction
    .ok ⟨signed, i, f⟩

end BinaryPoint.Format
