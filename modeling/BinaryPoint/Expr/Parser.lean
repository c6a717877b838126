import BinaryPoint.Expr
import BinaryPoint.Program.Stream

/-! # Parsing of expressions

Sums of products of signed operands, where an operand is a number, a name or an
expression in parentheses. Sums and products are grouped from the left. The depth of an
expression is at most the number of its tokens, which bounds each of the loops.
-/

namespace BinaryPoint.Expr

/-- The operators of a sum. -/
def sumOperator? : TokenKind → Option Operator
  | .plus => some .plus
  | .minus => some .minus
  | _ => none

/-- The operators of a product. -/
def productOperator? : TokenKind → Option Operator
  | .star => some .times
  | .slash => some .divide
  | _ => none

/-- Goes on with operators and operands, grouped from the left. -/
def chainFrom (operand : Parser Expr) (operator? : TokenKind → Option Operator) :
    Nat → Expr → Parser Expr
  | 0, left => pure left
  | limit + 1, left => do
    let t ← Parser.peek
    match operator? t.kind with
    | none => pure left
    | some op =>
      let t ← Parser.next
      let right ← operand
      chainFrom operand operator? limit (.binary op left right (some t.place))

/-- Operands with operators between them. -/
def chain (operand : Parser Expr) (operator? : TokenKind → Option Operator) (limit : Nat) :
    Parser Expr := do
  chainFrom operand operator? limit (← operand)

/-- A number, a name, or an expression in parentheses. -/
def primary (inner : Parser Expr) : Parser Expr := do
  let t ← Parser.peek
  match t.kind with
  | .integer =>
    let t ← Parser.next
    return .integer (← Parser.integerValue t) (some t.place)
  | .real =>
    let t ← Parser.next
    return .real (← Parser.realValue t) (some t.place)
  | .name =>
    let t ← Parser.next
    return .name t.lexeme (some t.place)
  | .leftParen =>
    let t ← Parser.next
    let e ← inner
    let _ ← Parser.expect .rightParen .closeParen
    return .paren e (some t.place)
  | _ => Parser.mismatch .expression t

/-- An operand after any number of minus signs. -/
def signed (operand : Parser Expr) : Nat → Parser Expr
  | 0 => operand
  | limit + 1 => do
    let t ← Parser.peek
    if t.kind = .minus then
      let t ← Parser.next
      return .unary "-" (← signed operand limit) (some t.place)
    else operand

/-- An expression of at most the given depth, with loops of at most that length. -/
def parse : Nat → Parser Expr
  | 0 => do Parser.mismatch .expression (← Parser.peek)
  | depth + 1 =>
    let operand := signed (primary (parse depth)) (depth + 1)
    chain (chain operand productOperator? (depth + 1)) sumOperator? (depth + 1)

/-- The expression at the start of a source text, whatever follows it. -/
def ofText (source file : String) : Except Fault Expr :=
  let s := Stream.ofLexed (Lexed.ofText source file)
  match (parse s.limit).run s with
  | .ok e _ => .ok e
  | .error f _ => refuse f.fault

end BinaryPoint.Expr
