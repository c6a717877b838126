import BinaryPoint.Decimal.Integer

/-! # Decimal numerals

The text form of a real number: a sign, digits around at most one point, and
an exponent. Single underscores may stand between digits, either side of the
point may be empty but not both, and white space around the numeral is skipped.
-/

namespace BinaryPoint.Decimal

/-- The parts of a numeral; it denotes `± whole.fraction × 10^exponent`. -/
structure Numeral where
  negative : Bool
  whole : List Nat
  fraction : List Nat
  exponent : Int
deriving DecidableEq, Repr

/-- What a text that should be a number turned out to be. -/
inductive NumberText
  | numeral (n : Numeral)
  | infinity (negative : Bool)
  | notANumber
deriving DecidableEq, Repr

/-- Goes on with a row of digits after one of them; an underscore counts as part of
the row only if a digit follows it. -/
def takeMoreDigits : List Char → List Nat × List Char
  | [] => ([], [])
  | '_' :: e :: rest =>
    match Text.digitValue? e with
    | some d => let (ds, left) := takeMoreDigits rest; (d :: ds, left)
    | none => ([], '_' :: e :: rest)
  | c :: rest =>
    match Text.digitValue? c with
    | some d => let (ds, left) := takeMoreDigits rest; (d :: ds, left)
    | none => ([], c :: rest)

/-- The longest row of digits at the start, underscores left out, with what follows it. -/
def takeDigits : List Char → List Nat × List Char
  | [] => ([], [])
  | c :: rest =>
    match Text.digitValue? c with
    | some d => let (ds, left) := takeMoreDigits rest; (d :: ds, left)
    | none => ([], c :: rest)

/-- A leading sign, and whether it is a minus. -/
def takeSign : List Char → Bool × List Char
  | '-' :: cs => (true, cs)
  | '+' :: cs => (false, cs)
  | cs => (false, cs)

/-- The part of a numeral after the point, if there is a point. -/
def takeFraction : List Char → List Nat × List Char
  | '.' :: cs => takeDigits cs
  | cs => ([], cs)

/-- The exponent, zero if there is none; `none` if its digits are missing. -/
def takeExponent : List Char → Option (Int × List Char)
  | [] => some (0, [])
  | c :: cs =>
    if c = 'e' || c = 'E' then
      let (negative, cs) := takeSign cs
      match takeDigits cs with
      | ([], _) => none
      | (ds, left) => some (if negative then -(ofDigits ds : Int) else ofDigits ds, left)
    else some (0, c :: cs)

/-- Reads an unsigned numeral that must fill the whole text. -/
def readUnsigned (negative : Bool) (cs : List Char) : Option Numeral :=
  let (whole, cs) := takeDigits cs
  let (fraction, cs) := takeFraction cs
  if whole.isEmpty && fraction.isEmpty then none
  else match takeExponent cs with
    | some (exponent, []) => some ⟨negative, whole, fraction, exponent⟩
    | _ => none

/-- Reads a number: a numeral, or one of the words for infinity and for no number,
in any mixture of cases. -/
def readNumber (s : String) : Option NumberText :=
  let (negative, cs) := takeSign (Text.trimBlanks s.toList)
  let word := String.ofList (cs.map Char.toLower)
  if word = "inf" || word = "infinity" then some (.infinity negative)
  else if word = "nan" then some .notANumber
  else (readUnsigned negative cs).map .numeral

end BinaryPoint.Decimal
