import BinaryPoint.Binary64.Rounding

/-! # Arithmetic on doubles

Each operation is the exact one followed by one rounding. What has no value,
such as `inf - inf`, is NaN.
-/

namespace BinaryPoint.Binary64

/-- The number with the other sign. -/
def neg : Binary64 → Binary64
  | .nan => .nan
  | .inf n => .inf !n
  | .finite n m e h => .finite (!n) m e h

/-- The magnitude. -/
def abs : Binary64 → Binary64
  | .nan => .nan
  | .inf _ => .inf false
  | .finite _ m e h => .finite false m e h

/-- The exact sum of two finite doubles as an integer multiple of `2^(min of the exponents)`. -/
def sumSignificand (x y : Binary64) : Int :=
  let e := min x.exponent y.exponent
  x.signedMant * 2 ^ (x.exponent - e).toNat + y.signedMant * 2 ^ (y.exponent - e).toNat

/-- The rounded sum. A sum of zero is the positive zero unless both terms are negative. -/
def add : Binary64 → Binary64 → Binary64
  | .nan, _ | _, .nan => .nan
  | .inf n, .inf m => if n = m then .inf n else .nan
  | .inf n, _ | _, .inf n => .inf n
  | x@(.finite n ..), y@(.finite m ..) =>
    let s := sumSignificand x y
    if s = 0 then zero (n && m)
    else ofScaled (s < 0) s.natAbs (min x.exponent y.exponent)

/-- The rounded difference. -/
def sub (x y : Binary64) : Binary64 := x.add y.neg

/-- The rounded product. -/
def mul : Binary64 → Binary64 → Binary64
  | .nan, _ | _, .nan => .nan
  | .inf n, .inf m => .inf (n != m)
  | .inf n, .finite m k .. => if k = 0 then .nan else .inf (n != m)
  | .finite n k .., .inf m => if k = 0 then .nan else .inf (n != m)
  | .finite n k e _, .finite m l f _ => ofScaled (n != m) (k * l) (e + f)

/-- The rounded quotient; dividing a number other than zero by zero gives an infinity. -/
def div : Binary64 → Binary64 → Binary64
  | .nan, _ | _, .nan => .nan
  | .inf _, .inf _ => .nan
  | .inf n, .finite m .. => .inf (n != m)
  | .finite n .., .inf m => zero (n != m)
  | .finite n k e _, .finite m l f _ =>
    if l = 0 then (if k = 0 then .nan else .inf (n != m))
    else ofRatio (n != m) (k * 2 ^ (e - f).toNat) (l * 2 ^ (f - e).toNat)

/-- The least integer that is not below a finite double. -/
def ceil (x : Binary64) : Int := x.toRat.ceil

instance : Neg Binary64 := ⟨neg⟩
instance : Add Binary64 := ⟨add⟩
instance : Sub Binary64 := ⟨sub⟩
instance : Mul Binary64 := ⟨mul⟩
instance : Div Binary64 := ⟨div⟩

end BinaryPoint.Binary64
