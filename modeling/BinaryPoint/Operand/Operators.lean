import BinaryPoint.Operand.Basic
import BinaryPoint.Sorted

/-! # Operators on operands

Fixed-point values go with fixed-point values and untyped data with untyped data. A
mixture of the two is refused with the names of both types, in the order in which the
operands stand.
-/

namespace BinaryPoint

/-- A comparison of two fixed-point values. -/
def Fixed.compare (c : Comparison) (a b : Fixed) : Except Fault Bool :=
  match c with
  | .less => a.lt b
  | .lessOrEqual => a.le b
  | .greater => a.gt b
  | .greaterOrEqual => a.ge b

namespace Operand

/-- The outcome of an operator, before it is given a serial number. -/
inductive Outcome
  | fixed (v : Fixed)
  | plain (v : Datum)
  | row (items : List Operand)
  | same (o : Operand)

/-- A sum. A text, list or row is joined only with its like; what is joined with an empty
row stays the same. -/
def add : Operand → Operand → Except Fault Outcome
  | fixed a _, fixed b _ => (a.add b).map .fixed
  | plain a _, plain b _ => (a.add b).map .plain
  | row xs s, row ys t =>
    .ok <| if xs.isEmpty then .same (row ys t)
      else if ys.isEmpty then .same (row xs s)
      else .row (xs ++ ys)
  | row .., b => refuse (.concatenation "tuple" b.typeName)
  | plain (.text _) _, b => refuse (.concatenation "str" b.typeName)
  | plain (.list _) _, b => refuse (.concatenation "list" b.typeName)
  | a, b => refuse (.operands "+" a.typeName b.typeName)

/-- A difference. -/
def sub : Operand → Operand → Except Fault Outcome
  | fixed a _, fixed b _ => (a.sub b).map .fixed
  | plain a _, plain b _ => (a.sub b).map .plain
  | a, b => refuse (.operands "-" a.typeName b.typeName)

/-- Whether an operand can be repeated. -/
def isSequence : Operand → Bool
  | plain (.text _) _ | plain (.list _) _ | row .. => true
  | _ => false

/-- A row repeated; the count has to be an integer. -/
def repeatRow (items : List Operand) (serial : Nat) (count : Operand) : Except Fault Outcome :=
  match count with
  | plain v _ =>
    match v.integer? with
    | some n =>
      .ok (if items.isEmpty || n = 1 then .same (row items serial)
        else .row (Datum.repeated n items))
    | none => refuse (.repetition v.typeName)
  | o => refuse (.repetition o.typeName)

/-- A product. -/
def mul : Operand → Operand → Except Fault Outcome
  | fixed a _, fixed b _ => (a.mul b).map .fixed
  | plain a _, plain b _ => (a.mul b).map .plain
  | row items s, b => repeatRow items s b
  | plain (.int n) k, row items s => repeatRow items s (plain (.int n) k)
  | plain (.bool b) k, row items s => repeatRow items s (plain (.bool b) k)
  | a, b =>
    if a.isSequence then refuse (.repetition b.typeName)
    else if b.isSequence then refuse (.repetition a.typeName)
    else refuse (.operands "*" a.typeName b.typeName)

mutual
/-- A comparison; rows are compared at the first place where they differ. -/
def compare (c : Comparison) : Operand → Operand → Except Fault Bool
  | fixed a _, fixed b _ => a.compare c b
  | plain a _, plain b _ => a.compare c b
  | row xs _, row ys _ => compareItems c xs ys
  | a, b => refuse (.unordered c.symbol a.typeName b.typeName)

/-- A comparison of two rows. -/
def compareItems (c : Comparison) : List Operand → List Operand → Except Fault Bool
  | [], [] => .ok (c.holds .eq)
  | [], _ :: _ => .ok (c.holds .lt)
  | _ :: _, [] => .ok (c.holds .gt)
  | x :: xs, y :: ys =>
    if sameObject x y || eq x y then compareItems c xs ys else compare c x y
end

/-- Sorts operands; the first comparison that fails ends it. -/
def sort (os : List Operand) : Except Fault (List Operand) := Sorted.sortBy (compare .less) os

end Operand

end BinaryPoint
