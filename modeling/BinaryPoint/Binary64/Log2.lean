import BinaryPoint.Binary64.Arithmetic

/-! # Base-two logarithm

`log2` is correctly rounded. A double is `f × 2^e` with `1 ≤ f < 2`; squaring `f`
again and again yields the binary digits of `log2 f` one by one, and 128 of them
are more than enough: no midpoint of two doubles has a digit that far to the right,
so none lies strictly between two neighbouring values of the truncated logarithm.
-/

namespace BinaryPoint.Binary64

/-- How many binary digits of a logarithm are computed. -/
def logDigits : Nat := 128

/-- Bounds `lo ≤ y × 2^precision ≤ hi` on a number `1 ≤ y < 2`. -/
structure Enclosure where
  lo : Nat
  hi : Nat

/-- The next binary digit of the logarithm of the enclosed number, and an enclosure of
the number whose logarithm has the digits after it. There is none if the bounds do
not tell on which side of two the square lies. -/
def Enclosure.step (precision : Nat) (y : Enclosure) : Option (Bool × Enclosure) :=
  let unit := 2 ^ precision
  let lo := y.lo * y.lo / unit
  let hi := (y.hi * y.hi + (unit - 1)) / unit
  if 2 * unit ≤ lo then some (true, ⟨lo / 2, (hi + 1) / 2⟩)
  else if hi < 2 * unit then some (false, ⟨lo, hi⟩)
  else none

/-- Goes on for `count` digits after those in `acc`. -/
def logDigitsFrom (precision : Nat) : Nat → Nat → Enclosure → Option Nat
  | 0, acc, _ => some acc
  | count + 1, acc, y =>
    match y.step precision with
    | some (bit, y) => logDigitsFrom precision count (2 * acc + bit.toNat) y
    | none => none

/-- `⌊2^128 × log2 (m / 2^52)⌋` by interval squaring at the given precision. -/
def logFloorAt? (precision m : Nat) : Option Nat :=
  let y := m * 2 ^ (precision - 52)
  logDigitsFrom precision logDigits 0 ⟨y, y⟩

/-- `⌊scale × log2 (m / 2^52)⌋` for `2^52 ≤ m < 2^53` by its definition. The power is huge
unless the scale is small. -/
def logFloorBy (scale m : Nat) : Nat := (m ^ scale).log2 - 52 * scale

/-- `⌊2^128 × log2 (m / 2^52)⌋` for `2^52 ≤ m < 2^53`: at 256 bits, at 1024 bits should
that not settle it, and else by its definition. -/
def logFloor (m : Nat) : Nat :=
  (logFloorAt? 256 m <|> logFloorAt? 1024 m).getD (logFloorBy (2 ^ logDigits) m)

/-- The correctly rounded logarithm of `m × 2^e` for `2^52 ≤ m < 2^53`: exact for a power
of two, and else the rounding of any number strictly between two neighbouring
128-digit values. -/
def logNormal (m : Nat) (e : Int) : Binary64 :=
  if m = 2 ^ (precision - 1) then ofInt (e + 52)
  else
    let t := 2 * ((e + 52) * 2 ^ logDigits + logFloor m) + 1
    ofRatio (t < 0) t.natAbs (2 ^ (logDigits + 1))

/-- The logarithm of a positive double; infinity and NaN are their own logarithms. -/
def log2 : Binary64 → Binary64
  | .finite _ m e _ =>
    let up := 52 - m.log2
    logNormal (m * 2 ^ up) (e - up)
  | x => x

/-- The logarithm of a positive integer. One beyond the doubles is first cut to
`h × 2^k` with a 53-bit fraction `1/2 ≤ h ≤ 1`. -/
def log2OfNat (n : Nat) : Binary64 :=
  let x := ofInt n
  if x.isFinite then x.log2
  else
    let bits := n.log2 + 1
    (ofRatio false n (2 ^ bits)).log2 + ofInt bits

end BinaryPoint.Binary64
