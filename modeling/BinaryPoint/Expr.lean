import BinaryPoint.Datum.Number

/-! # Value expressions

What a program may write where a value or a tolerance is wanted, and the double it
stands for. Evaluation is in doubles; it fails at the first operation whose result is
not finite.
-/

namespace BinaryPoint

/-- An operator between two operands. Trees that come from elsewhere than the parser may
hold operators that have no meaning. -/
inductive Operator
  | plus
  | minus
  | times
  | divide
  | unknown (symbol : String)
deriving DecidableEq, Repr

namespace Operator

/-- The text of an operator. -/
def text : Operator → String
  | plus => "+"
  | minus => "-"
  | times => "*"
  | divide => "/"
  | unknown symbol => symbol

/-- The operator with the given text. -/
def ofText (s : String) : Operator :=
  if s = "+" then plus
  else if s = "-" then minus
  else if s = "*" then times
  else if s = "/" then divide
  else unknown s

end Operator

/-- A value expression, with the position of each part if that is known. A `list` is a
sample list, which has no value of its own; `foreign` is a part of a program that is no
expression at all. -/
inductive Expr
  | integer (value : Int) (place : Option Location)
  | real (value : Binary64) (place : Option Location)
  | name (name : String) (place : Option Location)
  | binary (op : Operator) (left right : Expr) (place : Option Location)
  | unary (symbol : String) (operand : Expr) (place : Option Location)
  | paren (inner : Expr) (place : Option Location)
  | list (elements : List Expr) (place : Option Location)
  | foreign (kind : String) (place : Option Location)
deriving Inhabited

namespace Expr

/-- The position of an expression: that of its operator, or of its first token. -/
def place? : Expr → Option Location
  | integer _ p | real _ p | name _ p | binary _ _ _ p | unary _ _ p | paren _ p | list _ p
  | foreign _ p => p

mutual
/-- The names in an expression, from left to right. -/
def names : Expr → List (String × Option Location)
  | integer .. | real .. | foreign .. => []
  | name n p => [(n, p)]
  | binary _ left right _ => names left ++ names right
  | unary _ operand _ => names operand
  | paren inner _ => names inner
  | list elements _ => namesOf elements

/-- The names in a row of expressions. -/
def namesOf : List Expr → List (String × Option Location)
  | [] => []
  | e :: es => names e ++ namesOf es
end

/-- A result that has to be finite. -/
def finite (x : Binary64) (place : Option Location) : Except Fault Binary64 :=
  if x.isFinite then .ok x else refuse (.resultOverflow place)

/-- An operator applied to two values. -/
def apply (op : Operator) (x y : Binary64) (place : Option Location) : Except Fault Binary64 :=
  match op with
  | .plus => finite (x + y) place
  | .minus => finite (x - y) place
  | .times => finite (x * y) place
  | .divide => if y.isZero then refuse (.zeroDivision place) else finite (x / y) place
  | .unknown symbol => refuse (.unknownOperator symbol place)

/-- The value of an expression, given the values of names. The left operand comes first, so
that of two faults the left one shows. -/
def eval (env : String → Option Binary64) : Expr → Except Fault Binary64
  | integer n p =>
    let x := Binary64.ofInt n
    if x.isFinite then .ok x else refuse (.literalTooLarge p)
  | real x _ => .ok x
  | name n p =>
    match env n with
    | some x => .ok x
    | none => refuse (.unknownScalar n p)
  | binary op left right p => do
    let x ← eval env left
    let y ← eval env right
    apply op x y p
  | unary symbol operand p => do
    let x ← eval env operand
    if symbol = "-" then .ok (-x) else refuse (.unknownSign symbol p)
  | paren inner _ => eval env inner
  | list _ p => refuse (.listInside p)
  | foreign kind p => refuse (.notExpression kind p)

end Expr

end BinaryPoint
