import BinaryPoint.Power
import BinaryPoint.Text.CharClass

/-! # Integers in decimal

Integers are written and read digit by digit, so both directions refuse more
than `digitLimit` digits. The sign does not count.
-/

namespace BinaryPoint.Decimal

/-- The most digits that an integer may have in text. -/
def digitLimit : Nat := 4300

/-- The least magnitude whose text would be too long. -/
def writeLimit : Nat := 10 ^ digitLimit

/-- The decimal text of an integer, if it is within the digit limit. -/
def write? (n : Int) : Option String :=
  if n.natAbs < writeLimit then some (toString n) else none

/-- The number that a row of digits denotes. -/
def ofDigits (ds : List Nat) : Nat := ds.foldl (fun n d => 10 * n + d) 0

/-- Why a row of characters is not read as an integer. -/
inductive ReadFailure
  | notDigits
  | tooManyDigits (count : Nat)
deriving DecidableEq, Repr

/-- Reads a non-empty row of decimal digits of any script. -/
def readDigits (cs : List Char) : Except ReadFailure Nat :=
  match cs, cs.mapM Text.digitValue? with
  | _ :: _, some ds =>
    if ds.length ≤ digitLimit then .ok (ofDigits ds) else .error (.tooManyDigits ds.length)
  | _, _ => .error .notDigits

end BinaryPoint.Decimal
