import BinaryPoint.Fault

/-! # Formats from unchecked parts

How a format is made from a key or from parts of unknown type, and what of it cannot
always be written.
-/

namespace BinaryPoint.Format

/-- The key of a format, refused if a width is too long to be written. -/
def keyText (f : Format) : Except Fault String :=
  match f.key? with
  | some s => .ok s
  | none => .error .integerTooLong

/-- The name of the value type of a format, refused likewise. -/
def typeNameText (f : Format) : Except Fault String :=
  match f.typeName? with
  | some s => .ok s
  | none => .error .integerTooLong

/-- Reads a format key. -/
def parse (s : String) : Except Fault Format :=
  match ofKey s with
  | .ok f => .ok f
  | .error .malformed => refuse (.malformedKey s)
  | .error (.tooManyDigits n) => refuse (.tooManyDigits n)

/-- A width has to be an integer, which a truth value is not, and not negative. -/
def checkWidth (field : WidthField) (v : Datum) : Except Fault Nat :=
  match v with
  | .int n => if n < 0 then refuse (.widthNegative field n) else .ok n.toNat
  | v => refuse (.widthNotInteger field v)

/-- Only a truth value says whether a format is signed. -/
def checkSigned (v : Datum) : Except Fault Bool :=
  match v with
  | .bool b => .ok b
  | v => refuse (.signNotBool v)

/-- The format with the given parts; the first part that does not fit is reported. -/
def ofParts (signed integerBits fractionalBits : Datum) : Except Fault Format := do
  let s ← checkSigned signed
  let i ← checkWidth .integerBits integerBits
  let f ← checkWidth .fractionalBits fractionalBits
  .ok ⟨s, i, f⟩

/-- The format with other fractional bits. -/
def withFractionalBits (f : Format) (bits : Datum) : Except Fault Format := do
  .ok { f with fractionalBits := ← checkWidth .fractionalBits bits }

/-- The greatest value as a double, refused beyond the range of doubles. -/
def maxReal (f : Format) : Except Fault Binary64 :=
  if f.maxValue.isFinite then .ok f.maxValue else refuse .integerTooLarge

/-- The least value as a double. -/
def minReal (f : Format) : Except Fault Binary64 :=
  if f.minValue.isFinite then .ok f.minValue else refuse .integerTooLarge

end BinaryPoint.Format
