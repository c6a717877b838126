import BinaryPoint.Binary64.Rounding
import BinaryPoint.Decimal.Numeral

/-! # Doubles from text

The double nearest to a decimal numeral. The exponent of a numeral may be huge, so a
numeral whose order of magnitude is far outside the range of doubles is settled
without computing its power of ten.
-/

namespace BinaryPoint

namespace Decimal

/-- All digits of a numeral as one integer. -/
def Numeral.coefficient (n : Numeral) : Nat := ofDigits (n.whole ++ n.fraction)

/-- The power of ten that goes with the coefficient. -/
def Numeral.power (n : Numeral) : Int := n.exponent - n.fraction.length

/-- The exact number that a numeral denotes. -/
def Numeral.toRat (n : Numeral) : Rat :=
  let c := (n.coefficient : Rat) * (10 : Rat) ^ n.power
  if n.negative then -c else c

/-- The double nearest to a numeral. -/
def Numeral.toBinary64 (n : Numeral) : Binary64 :=
  let c := n.coefficient
  let magnitude := n.power + (Nat.toDigits 10 c).length
  if c = 0 then Binary64.zero n.negative
  else if magnitude < -400 then Binary64.zero n.negative
  else if 400 < magnitude then .inf n.negative
  else Binary64.ofRatio n.negative (c * 10 ^ n.power.toNat) (10 ^ (-n.power).toNat)

end Decimal

/-- The double that a text denotes, if it denotes a number or says that there is none. -/
def Binary64.ofText? (s : String) : Option Binary64 :=
  (Decimal.readNumber s).map fun
    | .numeral n => n.toBinary64
    | .infinity negative => .inf negative
    | .notANumber => .nan

end BinaryPoint
