import BinaryPoint.Power

/-! # Doubles

The 64-bit binary floating-point numbers, as the exact numbers they denote. A
finite double is `± mant × 2^exp` in the one form that the format stores, so two
finite doubles with the same sign and value are the same object.
-/

namespace BinaryPoint

namespace Binary64

/-- The number of bits in a significand. -/
abbrev precision : Nat := 53

/-- The significand and exponent of a stored double: 53 bits at most, and all of them
used unless the exponent is already the least one. -/
def Canonical (mant : Nat) (exp : Int) : Prop :=
  mant < 2 ^ precision ∧ -1074 ≤ exp ∧ exp ≤ 971 ∧ (2 ^ (precision - 1) ≤ mant ∨ exp = -1074)

instance (mant : Nat) (exp : Int) : Decidable (Canonical mant exp) :=
  inferInstanceAs (Decidable (_ ∧ _ ∧ _ ∧ _))

end Binary64

/-- A double. The two zeros are told apart by their sign; there is one NaN. -/
inductive Binary64
  | nan
  | inf (negative : Bool)
  | finite (negative : Bool) (mant : Nat) (exp : Int) (canonical : Binary64.Canonical mant exp)
deriving DecidableEq

namespace Binary64

/-- The zero of the given sign. -/
def zero (negative : Bool) : Binary64 := .finite negative 0 (-1074) (by decide)

instance : Inhabited Binary64 := ⟨zero false⟩

/-- One. -/
def one : Binary64 := .finite false (2 ^ (precision - 1)) (-52) (by decide)

/-- Neither infinite nor NaN. -/
def isFinite : Binary64 → Bool
  | .finite .. => true
  | _ => false

/-- The exact number that a finite double denotes; zero for the others. -/
def toRat : Binary64 → Rat
  | .finite negative mant exp _ => (if negative then -(mant : Rat) else mant) * (2 : Rat) ^ exp
  | _ => 0

/-- The significand with its sign, so that a finite double is `signedMant × 2^exponent`. -/
def signedMant : Binary64 → Int
  | .finite negative mant _ _ => if negative then -(mant : Int) else mant
  | _ => 0

/-- The exponent of the last place of a finite double. -/
def exponent : Binary64 → Int
  | .finite _ _ exp _ => exp
  | _ => 0

/-- The order of the numbers denoted, infinities at the ends; NaN is in no order. -/
def compare? : Binary64 → Binary64 → Option Ordering
  | .nan, _ | _, .nan => none
  | .inf n, .inf m => some (if n = m then .eq else if n then .lt else .gt)
  | .inf n, _ => some (if n then .lt else .gt)
  | _, .inf n => some (if n then .gt else .lt)
  | x, y => some (if x.toRat < y.toRat then .lt else if y.toRat < x.toRat then .gt else .eq)

/-- `x < y` as numbers; false if one of them is NaN. -/
def lt (x y : Binary64) : Bool := x.compare? y = some .lt

/-- `x = y` as numbers: the zeros are equal and NaN equals nothing. -/
def eq (x y : Binary64) : Bool := x.compare? y = some .eq

/-- A number above zero. -/
def isPositive (x : Binary64) : Bool := (zero false).lt x

/-- A number below zero; the negative zero is not. -/
def isNegative (x : Binary64) : Bool := x.lt (zero false)

/-- Either of the two zeros. -/
def isZero (x : Binary64) : Bool := x.eq (zero false)

end Binary64

end BinaryPoint
