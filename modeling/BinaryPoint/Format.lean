import BinaryPoint.Binary64.Arithmetic

/-! # Fixed-point formats

A format with `F` fractional bits holds multiples `raw / 2^F`. With `I` integer bits
their magnitude is at most `2^I`, that bound included; only a signed format holds
negative ones. The sign is not one of the integer bits.
-/

namespace BinaryPoint

/-- Signedness and widths of a fixed-point format. -/
structure Format where
  signed : Bool
  integerBits : Nat
  fractionalBits : Nat
deriving DecidableEq, Repr

namespace Format

/-- The bits that a value takes: sign, integer and fractional bits. -/
def width (f : Format) : Nat := f.signed.toNat + f.integerBits + f.fractionalBits

/-- The greatest scaled integer of the format. -/
def rawMax (f : Format) : Int := 2 ^ (f.integerBits + f.fractionalBits)

/-- The least scaled integer of the format. -/
def rawMin (f : Format) : Int := if f.signed then -f.rawMax else 0

/-- The scaled integers of the format. -/
def Holds (f : Format) (raw : Int) : Prop := f.rawMin ≤ raw ∧ raw ≤ f.rawMax

instance (f : Format) (raw : Int) : Decidable (f.Holds raw) :=
  inferInstanceAs (Decidable (_ ∧ _))

/-- The distance between neighbouring values. -/
def resolution (f : Format) : Rat := 1 / 2 ^ f.fractionalBits

/-- The real number that a scaled integer stands for. -/
def valueOf (f : Format) (raw : Int) : Rat := raw / 2 ^ f.fractionalBits

/-- The greatest value as a double; infinite if it is beyond the range of doubles. -/
def maxValue (f : Format) : Binary64 := Binary64.powerOfTwo f.integerBits

/-- The least value as a double. -/
def minValue (f : Format) : Binary64 := if f.signed then -f.maxValue else Binary64.zero false

end Format

end BinaryPoint
