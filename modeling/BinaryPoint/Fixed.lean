import BinaryPoint.Rounding

/-! # Fixed-point values

A value belongs to one value type, and so to one format, and its scaled integer lies in
the range of that format. Arithmetic takes two values of one format and gives a value
of that format or none.
-/

namespace BinaryPoint

/-- The type of the values of one format. Each cache makes its own: `origin` tells them
apart. Its values are within the range of doubles. -/
structure ValueType where
  format : Format
  origin : Nat
  bounded : format.integerBits < 1024
deriving DecidableEq

namespace ValueType

/-- The name of a value type. -/
def name (t : ValueType) : String := t.format.typeName?.getD ""

/-- What a value type says of itself. -/
def doc (t : ValueType) : String := s!"Fixed-point value of format {t.format.key}."

end ValueType

/-- A value of a fixed-point format, as the integer `raw` that stands for
`raw / 2^fractionalBits`. -/
structure Fixed where
  type : ValueType
  raw : Int
  holds : type.format.Holds raw
deriving DecidableEq

namespace Fixed

/-- The format of a value. -/
def format (v : Fixed) : Format := v.type.format

/-- The real number that a value stands for. -/
def toRat (v : Fixed) : Rat := v.format.valueOf v.raw

/-- The value with a scaled integer, if that is in range. -/
def ofRaw (t : ValueType) (raw : Int) : Except Fault Fixed :=
  if h : t.format.Holds raw then .ok ⟨t, raw, h⟩ else refuse (.outOfRange raw t.format)

/-- The double nearest to a value. -/
def toReal (v : Fixed) : Binary64 :=
  Binary64.ofRatio (v.raw < 0) v.raw.natAbs (2 ^ v.format.fractionalBits)

/-- A value as messages show it. -/
def text (v : Fixed) : String := s!"{v.format.key}({v.toReal.text})"

/-! ## Comparison -/

/-- Same format and same number; the value types may differ. -/
def eq (a b : Fixed) : Bool := a.format = b.format && a.raw = b.raw

/-- The scaled integer of the second operand, if it has the format of the first. -/
def operand (a b : Fixed) : Except Fault Int :=
  if b.format = a.format then .ok b.raw else refuse (.formatsDiffer a.format b.format)

/-- The order of values of one format. -/
def lt (a b : Fixed) : Except Fault Bool := do .ok (a.raw < (← a.operand b))

/-- `lt` or equal. -/
def le (a b : Fixed) : Except Fault Bool := do .ok ((← a.lt b) || a.eq b)

/-- Neither `lt` nor equal. -/
def gt (a b : Fixed) : Except Fault Bool := do .ok (!(← a.lt b) && !a.eq b)

/-- Not `lt`. -/
def ge (a b : Fixed) : Except Fault Bool := do .ok !(← a.lt b)

/-! ## Arithmetic -/

/-- The exact sum. -/
def add (a b : Fixed) : Except Fault Fixed := do ofRaw a.type (a.raw + (← a.operand b))

/-- The exact difference. -/
def sub (a b : Fixed) : Except Fault Fixed := do ofRaw a.type (a.raw - (← a.operand b))

/-- The product, rounded half up. -/
def mul (a b : Fixed) : Except Fault Fixed := do
  ofRaw a.type (shiftRound (a.raw * (← a.operand b)) a.format.fractionalBits)

/-- The value with the other sign. -/
def neg (a : Fixed) : Except Fault Fixed := ofRaw a.type (-a.raw)

/-- The magnitude. -/
def abs (a : Fixed) : Except Fault Fixed := if 0 ≤ a.raw then .ok a else a.neg

end Fixed

end BinaryPoint
