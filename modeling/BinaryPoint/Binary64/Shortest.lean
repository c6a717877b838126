import BinaryPoint.Binary64.Rounding

/-! # Shortest decimal text of a double

A double is written with the fewest significant digits that read back as the same
double, and of those with the digits nearest to it. Seventeen digits always read
back, so the search over the number of digits ends there.
-/

namespace BinaryPoint.Binary64

/-- A decimal number `digits × 10^exponent`. -/
structure Decimal where
  digits : Nat
  exponent : Int
deriving DecidableEq, Repr

/-- The power `k` of ten with `10^(k-1) ≤ num / den < 10^k`, for positive numbers. -/
def decimalPoint (num den : Nat) : Int :=
  let guess := Int.fdiv (binaryExponent num den * 1233) 4096
  let reaches (k : Int) : Bool := den * 10 ^ k.toNat ≤ num * 10 ^ (-k).toNat
  if reaches (guess + 1) then guess + 2 else if reaches guess then guess + 1 else guess

/-- The double that a decimal number reads back as. -/
def Decimal.toBinary64 (negative : Bool) (d : Decimal) : Binary64 :=
  ofRatio negative (d.digits * 10 ^ d.exponent.toNat) (10 ^ (-d.exponent).toNat)

/-- Of the two multiples of `10^exponent` around `num / den`, those that read back as
`x`, the nearer one first. At equal distance the even one is nearer. -/
def neighbours (x : Binary64) (num den : Nat) (exponent : Int) : List Decimal :=
  let n := num * 10 ^ (-exponent).toNat
  let d := den * 10 ^ exponent.toNat
  let below := n / d
  let candidates :=
    if nearestEven n d = below then [below, below + 1] else [below + 1, below]
  (candidates.map (⟨·, exponent⟩)).filter fun c => c.toBinary64 false = x

/-- The first decimal that reads back as `x`, trying `count` more digit numbers from
the last place `exponent` on. -/
def searchDigits (x : Binary64) (num den : Nat) : Nat → Int → Decimal
  | 0, exponent => ⟨num * 10 ^ (-exponent).toNat / (den * 10 ^ exponent.toNat), exponent⟩
  | count + 1, exponent =>
    match neighbours x num den exponent with
    | d :: _ => d
    | [] => searchDigits x num den count (exponent - 1)

/-- The shortest decimal for `mant × 2^exp`, whose double is `x`. -/
def shortest (x : Binary64) (mant : Nat) (exp : Int) : Decimal :=
  let num := mant * 2 ^ exp.toNat
  let den := 2 ^ (-exp).toNat
  searchDigits x num den 17 (decimalPoint num den - 1)

/-- How a decimal is laid out: `positional` says whether a number whose first digit
stands at the given power of ten is written without an exponent. -/
structure Layout where
  positional : Int → Bool
  mark : Char
  exponentWidth : Nat

/-- Numbers from `0.0001` to below `10^16` are written out, with at least one digit on
either side of the point; the others get an exponent with a sign and two digits. -/
def plainLayout : Layout := ⟨fun k => -4 ≤ k && k < 16, 'e', 2⟩

/-- The digits of a number without the zeros at its end. -/
def significantDigits (n : Nat) : List Char :=
  ((Nat.toDigits 10 n).reverse.dropWhile (· = '0')).reverse

/-- Writes out digits that start at the power `k` of ten. -/
def positionalText (ds : List Char) (k : Int) : List Char :=
  if k < 0 then '0' :: '.' :: List.replicate (-k - 1).toNat '0' ++ ds
  else
    let lead := k.toNat + 1
    let whole := ds.take lead ++ List.replicate (lead - ds.length) '0'
    let fraction := ds.drop lead
    whole ++ '.' :: (if fraction.isEmpty then ['0'] else fraction)

/-- One digit before the point, then the exponent. -/
def scientificText (layout : Layout) (ds : List Char) (k : Int) : List Char :=
  let lead := match ds with
    | [d] => [d]
    | d :: rest => d :: '.' :: rest
    | [] => ['0']
  let power := Nat.toDigits 10 k.natAbs
  lead ++ layout.mark :: (if k < 0 then '-' else '+')
    :: List.replicate (layout.exponentWidth - power.length) '0' ++ power

/-- The text of a positive decimal number. -/
def Decimal.text (layout : Layout) (d : Decimal) : List Char :=
  let k := d.exponent + (Nat.toDigits 10 d.digits).length - 1
  let ds := significantDigits d.digits
  if layout.positional k then positionalText ds k else scientificText layout ds k

/-- The text of a double. -/
def text : Binary64 → String
  | .nan => "nan"
  | .inf negative => if negative then "-inf" else "inf"
  | .finite negative mant exp h =>
    let magnitude :=
      if mant = 0 then ['0', '.', '0']
      else (shortest (.finite false mant exp h) mant exp).text plainLayout
    String.ofList (if negative then '-' :: magnitude else magnitude)

instance : ToString Binary64 := ⟨text⟩

end BinaryPoint.Binary64
