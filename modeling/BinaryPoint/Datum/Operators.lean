import BinaryPoint.Datum.Number

/-! # Operators on untyped data

Sums, differences, products and comparisons of values of unknown type. Numbers of any
type go together; texts and lists can be joined and repeated. What does not go together
is refused with the names of the types.
-/

namespace BinaryPoint

/-- The four comparisons. -/
inductive Comparison
  | less
  | lessOrEqual
  | greater
  | greaterOrEqual
deriving DecidableEq, Repr

namespace Comparison

/-- The symbol of a comparison. -/
def symbol : Comparison → String
  | less => "<"
  | lessOrEqual => "<="
  | greater => ">"
  | greaterOrEqual => ">="

/-- Whether a comparison holds between values in the given order. -/
def holds : Comparison → Ordering → Bool
  | less, o => o == .lt
  | lessOrEqual, o => o != .gt
  | greater, o => o == .gt
  | greaterOrEqual, o => o != .lt

end Comparison

namespace Datum

/-! ## Arithmetic -/

/-- A number as a double. -/
def Number.toReal : Number → Except Fault Binary64
  | .int n => integerToReal n
  | .real x => .ok x

/-- An operation on two numbers: exact on integers, and else on doubles. -/
def Number.combine (onIntegers : Int → Int → Int) (onReals : Binary64 → Binary64 → Binary64) :
    Number → Number → Except Fault Datum
  | .int a, .int b => .ok (.int (onIntegers a b))
  | a, b => do .ok (.real (onReals (← a.toReal) (← b.toReal)))

/-- A list repeated as often as an integer says, which is never if that is negative. -/
def repeated {α : Type} (n : Int) (xs : List α) : List α := (List.replicate n.toNat xs).flatten

/-- The sum, or two texts or lists joined. -/
def add (a b : Datum) : Except Fault Datum :=
  match a, b with
  | .text s, .text t => .ok (.text (s ++ t))
  | .list xs, .list ys => .ok (.list (xs ++ ys))
  | .text _, _ => refuse (.concatenation "str" b.typeName)
  | .list _, _ => refuse (.concatenation "list" b.typeName)
  | _, _ =>
    match a.number?, b.number? with
    | some x, some y => x.combine (· + ·) (· + ·) y
    | _, _ => refuse (.operands "+" a.typeName b.typeName)

/-- The difference. -/
def sub (a b : Datum) : Except Fault Datum :=
  match a.number?, b.number? with
  | some x, some y => x.combine (· - ·) (· - ·) y
  | _, _ => refuse (.operands "-" a.typeName b.typeName)

/-- A text or list repeated, if the value is one; the count has to be an integer. -/
def repeated? (count : Datum) : Datum → Option (Except Fault Datum)
  | .text s => some <| match count.integer? with
    | some n => .ok (.text (String.ofList (repeated n s.toList)))
    | none => refuse (.repetition count.typeName)
  | .list xs => some <| match count.integer? with
    | some n => .ok (.list (repeated n xs))
    | none => refuse (.repetition count.typeName)
  | _ => none

/-- The product, or a text or list repeated. -/
def mul (a b : Datum) : Except Fault Datum :=
  match a.number?, b.number? with
  | some x, some y => x.combine (· * ·) (· * ·) y
  | _, _ =>
    match repeated? b a, repeated? a b with
    | some r, _ => r
    | none, some r => r
    | none, none => refuse (.operands "*" a.typeName b.typeName)

/-- The number with the other sign. -/
def neg (a : Datum) : Except Fault Datum :=
  match a.number? with
  | some (.int n) => .ok (.int (-n))
  | some (.real x) => .ok (.real (-x))
  | none => refuse (.signOperand "unary -" a.typeName)

/-- The number itself; a truth value becomes an integer. -/
def pos (a : Datum) : Except Fault Datum :=
  match a.number? with
  | some (.int n) => .ok (.int n)
  | some (.real x) => .ok (.real x)
  | none => refuse (.signOperand "unary +" a.typeName)

/-- The magnitude of a number. -/
def abs (a : Datum) : Except Fault Datum :=
  match a.number? with
  | some (.int n) => .ok (.int n.natAbs)
  | some (.real x) => .ok (.real x.abs)
  | none => refuse (.signOperand "abs()" a.typeName)

/-! ## Order -/

mutual
/-- A comparison of two values; lists are compared at the first place where they differ. -/
def compare (c : Comparison) (a b : Datum) : Except Fault Bool :=
  match a, b with
  | .text s, .text t => .ok (c.holds (compareOfLessAndEq s t))
  | .list xs, .list ys => compareItems c xs ys
  | .date y m d, .date y' m' d' =>
    .ok (c.holds ((Ord.compare y y').then ((Ord.compare m m').then (Ord.compare d d'))))
  | a, b =>
    match a.number?, b.number? with
    | some x, some y => .ok ((x.compare? y).any c.holds)
    | _, _ => refuse (.unordered c.symbol a.typeName b.typeName)

/-- A comparison of two lists. -/
def compareItems (c : Comparison) : List Datum → List Datum → Except Fault Bool
  | [], [] => .ok (c.holds .eq)
  | [], _ :: _ => .ok (c.holds .lt)
  | _ :: _, [] => .ok (c.holds .gt)
  | x :: xs, y :: ys => if x.eq y then compareItems c xs ys else compare c x y
end

/-! ## Hashes -/

/-- The prime modulus of numeric hashes. -/
def hashModulus : Nat := 2 ^ (61 : Nat) - 1

/-- The hash of an integer: its magnitude modulo the prime, with its sign; -1 is not used. -/
def integerHash (n : Int) : Int :=
  let h : Int := n.natAbs % hashModulus
  let h := if n < 0 then -h else h
  if h = -1 then -2 else h

/-- The hash of a double, which equals that of an integer of the same value. -/
def realHash : Binary64 → Int
  | .nan => 0
  | .inf negative => if negative then -314159 else 314159
  | x => integerHash (x.signedMant * 2 ^ (x.exponent % 61).toNat)

/-- The hash of a number. -/
def Number.hash : Number → Int
  | .int n => integerHash n
  | .real x => realHash x

/-- Whether two values that are no collections have the same hash. -/
def hashEq (a b : Datum) : Bool :=
  match a.number?, b.number? with
  | some x, some y => x.hash == y.hash
  | _, _ => a.eq b

end Datum

end BinaryPoint
