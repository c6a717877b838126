import BinaryPoint.Datum.Number

/-! # Inference of formats

The smallest format that holds every sample with less than a given rounding error:
signed if some sample is negative, with the integer bits that the samples' logarithms
ask for, and with the first fractional width that meets the tolerance.
-/

namespace BinaryPoint

/-- The bits that a sample needs left of the binary point, before rounding up: the
logarithm of a positive one, and of one minus the sample for the others. -/
def Binary64.integerWidth (x : Binary64) : Binary64 :=
  if x.isPositive then x.log2 else (-x + .one).log2

/-- `integerWidth` of a value of unknown type; integers are exact up to the logarithm. -/
def Datum.integerWidth (v : Datum) : Except Fault Binary64 :=
  match v.number? with
  | some (.int n) => .ok (Binary64.log2OfNat (if 0 < n then n else 1 - n).toNat)
  | some (.real x) => .ok x.integerWidth
  | none => refuse (.unordered ">" v.typeName "int")

namespace Inference

/-- The most fractional bits that a search tries unless told otherwise: those of a
double's significand after the leading one. -/
def defaultBound : Nat := 52

/-- Whether rounding to `bits` fractional bits keeps every sample within the tolerance. -/
def meets (samples : List Binary64) (tolerance : Binary64) (bits : Nat) : Bool :=
  samples.all fun x => x.roundingError bits < tolerance.toRat

/-- The first of `count` widths from `bits` on that passes a test. -/
def firstWidth (test : Nat → Bool) : Nat → Nat → Option Nat
  | 0, _ => none
  | count + 1, bits => if test bits then some bits else firstWidth test count (bits + 1)

/-- How many widths there are to try up to a bound. -/
def widthCount (bound : Datum) : Except Fault Int :=
  match bound with
  | .text _ => refuse (.concatenation "str" "int")
  | .list _ => refuse (.concatenation "list" "int")
  | _ =>
    match bound.number? with
    | some (.int n) => .ok (n + 1)
    | some (.real _) => refuse .exponentNotInteger
    | none => refuse (.operands "+" bound.typeName "int")

/-- Half of the finest step that `count` widths reach. -/
def finestHalfStep (count : Int) : Except Fault Binary64 :=
  let step := Binary64.powerOfTwo (-count)
  if step.isFinite then .ok step else refuse .powerRange

/-- The greatest of a list of doubles. -/
def greatest : List Binary64 → Binary64
  | [] => .zero false
  | x :: xs => xs.foldl (fun best y => if best.lt y then y else best) x

/-- The integer bits that all samples need. -/
def integerBits (samples : List Binary64) : Nat :=
  (greatest (samples.map Binary64.integerWidth)).ceil.toNat

/-- The format inferred for samples at a tolerance, with a bound on the fractional width. -/
def infer (samples : List Binary64) (tolerance : Binary64) (bound : Datum) :
    Except Fault Format := do
  if samples.isEmpty then refuse .noSamples
  if !(tolerance.isFinite && tolerance.isPositive) then
    refuse (.toleranceNotPositive (.real tolerance))
  if let some i := samples.findIdx? (!·.isFinite) then
    refuse (.sampleNotFinite i (samples.getD i .nan))
  let count ← widthCount bound
  let halfStep ← finestHalfStep count
  if !halfStep.lt tolerance then refuse (.toleranceTooFine tolerance bound)
  match firstWidth (meets samples tolerance) count.toNat 0 with
  | some bits => .ok ⟨samples.any (·.isNegative), integerBits samples, bits⟩
  | none => refuse (.widthsExhausted bound samples.length tolerance)

/-- `infer` on values of unknown type. -/
def inferFrom (samples : List Datum) (epsilon bound : Datum) : Except Fault Format := do
  let values ← samples.mapM Datum.toReal
  if values.isEmpty then refuse .noSamples
  let tolerance ← match epsilon.toReal with
    | .ok x => .ok x
    | .error f =>
      if f.kind = .type || f.kind = .value then refuse (.toleranceNotNumber epsilon)
      else .error f
  if !(tolerance.isFinite && tolerance.isPositive) then refuse (.toleranceNotPositive epsilon)
  infer values tolerance bound

end Inference

end BinaryPoint
