import BinaryPoint.Binary64.Basic

/-! # Rounding to the nearest double

Every double that is computed comes out of `ofRatio`: the exact result is a
quotient of natural numbers, and the nearest double is taken, a tie going to the
even significand. What rounds beyond the largest finite double is infinite.
-/

namespace BinaryPoint

/-- The natural number nearest to `num / den`; a tie goes to the even neighbour. -/
def nearestEven (num den : Nat) : Nat :=
  let q := num / den
  let r := num % den
  if 2 * r < den then q else if den < 2 * r then q + 1 else q + q % 2

/-- The exponent `e` with `2^e ≤ num / den < 2^(e+1)`, for positive numbers. -/
def binaryExponent (num den : Nat) : Int :=
  let e := (num.log2 : Int) - den.log2
  if den * 2 ^ e.toNat ≤ num * 2 ^ (-e).toNat then e else e - 1

namespace Binary64

/-- The double with this significand and exponent, or infinity if the format has no such one. -/
def ofParts (negative : Bool) (mant : Nat) (exp : Int) : Binary64 :=
  if h : Canonical mant exp then .finite negative mant exp h else .inf negative

/-- The exponent of the last place that a double near `num / den` has. -/
def lastPlace (num den : Nat) : Int := max (-1074) (binaryExponent num den - 52)

/-- The double nearest to `± num / den`. -/
def ofRatio (negative : Bool) (num den : Nat) : Binary64 :=
  if num = 0 then zero negative
  else
    let exp := lastPlace num den
    let mant := nearestEven (num * 2 ^ (-exp).toNat) (den * 2 ^ exp.toNat)
    if mant = 2 ^ precision then ofParts negative (2 ^ (precision - 1)) (exp + 1)
    else ofParts negative mant exp

/-- The double nearest to `± mag × 2^exp`. -/
def ofScaled (negative : Bool) (mag : Nat) (exp : Int) : Binary64 :=
  ofRatio negative (mag * 2 ^ exp.toNat) (2 ^ (-exp).toNat)

/-- The double nearest to an integer; infinite if the integer is out of range. -/
def ofInt (n : Int) : Binary64 := ofRatio (n < 0) n.natAbs 1

/-- The double nearest to a rational number. -/
def ofRat (q : Rat) : Binary64 := ofRatio (q.num < 0) q.num.natAbs q.den

/-- The double nearest to `1 × 2^exp`. Far beyond either end of the range the answer
is known without the power. -/
def powerOfTwo (exp : Int) : Binary64 :=
  if exp < -1100 then zero false else if 1100 < exp then .inf false else ofScaled false 1 exp

end Binary64

end BinaryPoint
