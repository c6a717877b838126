import BinaryPoint.Fault

/-! # Rounding half up

Values are rounded to a multiple of `2^-F` with ties going up. One function on
integers does all of it, so that inference, binding and arithmetic agree on a tie.
-/

namespace BinaryPoint

/-- `raw / 2^shift` rounded half up; a shift that is not positive scales up exactly. -/
def shiftRound (raw shift : Int) : Int :=
  if shift ≤ 0 then raw * 2 ^ (-shift).toNat
  else
    let unit : Int := 2 ^ shift.toNat
    let half : Int := 2 ^ (shift.toNat - 1)
    if half ≤ raw % unit then raw / unit + 1 else raw / unit

namespace Binary64

/-- A finite double times `2^bits`, rounded half up. -/
def scaled (x : Binary64) (bits : Nat) : Int := shiftRound x.signedMant (-x.exponent - bits)

/-- The exact distance between a finite double and its rounding to `bits` fractional bits. -/
def roundingError (x : Binary64) (bits : Nat) : Rat :=
  ((x.scaled bits : Rat) / 2 ^ bits - x.toRat).abs

/-- `scaled` where the double may be infinite or NaN and the width negative. -/
def scaled? (x : Binary64) (bits : Int) : Except Fault Int :=
  match x with
  | .nan => refuse .ratioOfNaN
  | .inf _ => refuse .ratioOfInfinity
  | x => if bits < 0 then refuse .negativeShift else .ok (x.scaled bits.toNat)

end Binary64

end BinaryPoint
