import BinaryPoint.Datum.Operators
import BinaryPoint.Fixed

/-! # Operands

What a session computes with: fixed-point values, untyped data, and rows of operands.
Each operand that is made gets a serial number, so that the same object can be told from
an equal one.
-/

namespace BinaryPoint

/-- A value that a session holds. -/
inductive Operand
  | fixed (v : Fixed) (serial : Nat)
  | plain (v : Datum) (serial : Nat)
  | row (items : List Operand) (serial : Nat)
deriving Inhabited

namespace Operand

/-- The name of an operand's type. -/
def typeName : Operand → String
  | fixed v _ => v.type.name
  | plain v _ => v.typeName
  | row .. => "tuple"

/-- The fixed-point value that an operand is. -/
def typed : Operand → Except Fault Fixed
  | fixed v _ => .ok v
  | o => refuse (.notTyped o.typeName)

/-- An operand as a double. -/
def toReal : Operand → Except Fault Binary64
  | fixed v _ => .ok v.toReal
  | plain v _ => v.toReal
  | o => refuse (.notReal o.typeName)

mutual
/-- An operand as messages show it. -/
def shown? : Operand → Option String
  | fixed v _ => some v.text
  | plain v _ => v.shown?
  | row items _ => do
    match ← shownItems? items with
    | [s] => some ("(" ++ s ++ ",)")
    | parts => some ("(" ++ ", ".intercalate parts ++ ")")

/-- The items of a row. -/
def shownItems? : List Operand → Option (List String)
  | [] => some []
  | o :: os => do
    let first ← shown? o
    let others ← shownItems? os
    some (first :: others)
end

/-- The text of an operand, refused if an integer in it is too long. -/
def text (o : Operand) : Except Fault String :=
  match o.shown? with
  | some s => .ok s
  | none => .error .integerTooLong

/-! ## Identity -/

/-- Whether all values equal to this one are the same object. -/
def isShared : Datum → Bool
  | .null | .bool _ => true
  | .int n => -5 ≤ n && n ≤ 256
  | .text s => s.length ≤ 1 && s.toList.all (·.toNat < 256)
  | _ => false

/-- Whether two operands are the same object. -/
def sameObject : Operand → Operand → Bool
  | fixed _ s, fixed _ t => s == t
  | plain v s, plain w t =>
    s == t || (isShared v && isShared w && v.typeName == w.typeName && v.eq w)
  | row xs s, row ys t => s == t || (xs.isEmpty && ys.isEmpty)
  | _, _ => false

/-- Whether two operands have the same type. -/
def sameType : Operand → Operand → Bool
  | fixed v _, fixed w _ => v.type = w.type
  | fixed .., _ | _, fixed .. => false
  | a, b => a.typeName == b.typeName

/-! ## Equality -/

/-- Whether a value is made of others. -/
def isCollection : Datum → Bool
  | .list _ | .map _ => true
  | _ => false

mutual
/-- Equality of operands; a fixed-point value equals no untyped one. A collection equals
itself even if it holds a NaN. -/
def eq : Operand → Operand → Bool
  | fixed v _, fixed w _ => v.eq w
  | plain v s, plain w t => (s == t && isCollection v) || v.eq w
  | row xs _, row ys _ => eqItems xs ys
  | _, _ => false

/-- Equality of rows, item by item. -/
def eqItems : List Operand → List Operand → Bool
  | [], [] => true
  | x :: xs, y :: ys => (sameObject x y || eq x y) && eqItems xs ys
  | _, _ => false
end

mutual
/-- Fails if an operand has no hash because a list or a mapping is in it. -/
def checkHashable : Operand → Except Fault Unit
  | fixed .. => .ok ()
  | plain v _ => if isCollection v then refuse (.unhashable v.typeName) else .ok ()
  | row items _ => checkHashableItems items

/-- Fails if an item has no hash. -/
def checkHashableItems : List Operand → Except Fault Unit
  | [] => .ok ()
  | o :: os => do
    checkHashable o
    checkHashableItems os
end

mutual
/-- Whether two operands that have hashes have the same one. -/
def hashEq : Operand → Operand → Bool
  | fixed v _, fixed w _ =>
    v.format = w.format && Datum.integerHash v.raw == Datum.integerHash w.raw
  | plain v _, plain w _ => v.hashEq w
  | row xs _, row ys _ => hashEqItems xs ys
  | _, _ => false

/-- Whether two rows have the same hashes, item by item. -/
def hashEqItems : List Operand → List Operand → Bool
  | [], [] => true
  | x :: xs, y :: ys => hashEq x y && hashEqItems xs ys
  | _, _ => false
end

/-- Whether two operands have the same hash. -/
def sameHash (a b : Operand) : Except Fault Bool := do
  a.checkHashable
  b.checkHashable
  .ok (a.hashEq b)

end Operand

end BinaryPoint
