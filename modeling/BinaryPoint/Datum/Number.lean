import BinaryPoint.Binary64.Literal
import BinaryPoint.Binary64.Log2
import BinaryPoint.Rounding

/-! # Numbers among untyped data

How a value of unknown type is taken as a double, how far it is from its rounding, and
how many integer bits it needs.
-/

namespace BinaryPoint.Datum

/-- The double nearest to an integer, refused beyond the range of doubles. -/
def integerToReal (n : Int) : Except Fault Binary64 :=
  let x := Binary64.ofInt n
  if x.isFinite then .ok x else refuse .integerTooLarge

/-- The double that a value stands for. -/
def toReal : Datum → Except Fault Binary64
  | .real x => .ok x
  | .int n => integerToReal n
  | .bool b => integerToReal b.toNat
  | .text s =>
    match Binary64.ofText? s with
    | some x => .ok x
    | none => refuse (.notNumberText s)
  | v => refuse (.notReal v.typeName)

/-- The exact rational number that a value stands for, after `toReal` has taken it. In a
numeral the digits on either side of the point are subject to the digit limit. -/
def toRat : Datum → Except Fault Rat
  | .real x => .ok x.toRat
  | .int n => .ok n
  | .bool b => .ok (b.toNat : Int)
  | .text s =>
    match Decimal.readNumber s with
    | some (.numeral n) =>
      if Decimal.digitLimit < n.whole.length then refuse (.tooManyDigits n.whole.length)
      else if Decimal.digitLimit < n.fraction.length then
        refuse (.tooManyDigits n.fraction.length)
      else .ok n.toRat
    | _ => refuse (.notNumberText s)
  | v => refuse (.notReal v.typeName)

/-- A value times `2^bits`, rounded half up. -/
def scaled (v : Datum) (bits : Int) : Except Fault Int := do
  (← v.toReal).scaled? bits

/-- The exact distance between a value and its rounding to `bits` fractional bits. -/
def roundingError (v : Datum) (bits : Int) : Except Fault Rat := do
  let raw ← v.scaled bits
  let exact ← v.toRat
  .ok ((raw : Rat) / 2 ^ bits.toNat - exact).abs

/-- The text of a rational number: an integer, or numerator and denominator. -/
def ratioText (q : Rat) : Except Fault String := do
  let num ← integerText q.num
  if q.den = 1 then .ok num else .ok (num ++ "/" ++ (← integerText q.den))

/-- The double nearest to a rational number, refused beyond the range of doubles. -/
def ratioToReal (q : Rat) : Except Fault Binary64 :=
  let x := Binary64.ofRat q
  if x.isFinite then .ok x else refuse .integerTooLarge

end BinaryPoint.Datum
