import BinaryPoint.Datum.Number
import BinaryPoint.Text.Lines
import BinaryPoint.Yaml.Node

/-! # Values of YAML texts

Quoted scalars are texts. A plain scalar may also be nothing, a truth value, an integer
in one of several notations, a double or a date; what is none of these is a text.
-/

namespace BinaryPoint.Yaml

/-- Why a text has no value: it is not in order, or a scalar in it denotes nothing that
exists. -/
inductive Failure
  | malformed
  | fault (f : Fault)

/-- Fails with a fault. -/
def fail {α : Type} (f : Fault) : Except Failure α := .error (.fault f.settled)

/-! ## Plain scalars -/

/-- A sign at the start of a scalar, and whether it is a minus. -/
def splitSign : List Char → Bool × List Char
  | '-' :: cs => (true, cs)
  | '+' :: cs => (false, cs)
  | cs => (false, cs)

/-- A digit or an underscore. -/
def isDigitPart (c : Char) : Bool := c.isDigit || c = '_'

/-- The values of the digits in a scalar, underscores left out. -/
def digitValues (cs : List Char) : List Nat := (cs.filter (· ≠ '_')).filterMap hexValue?

/-- The parts of a scalar around colons. -/
def splitColons (cs : List Char) : List (List Char) := cs.splitOn ':'

/-- A part after a colon: at most two digits, below 60. -/
def isSixtieth : List Char → Bool
  | [a] => a.isDigit
  | [a, b] => '0' ≤ a && a ≤ '5' && b.isDigit
  | _ => false

/-- A whole part: a digit, then digits and underscores. -/
def isWhole : List Char → Bool
  | [] => false
  | c :: cs => c.isDigit && cs.all isDigitPart

/-- An integer in base 2 or 16; underscores alone are no digits. -/
def prefixedInteger (base : Nat) (cs : List Char) : Except Failure Nat :=
  match digitValues cs with
  | [] => fail (.noDigits base)
  | ds => .ok (inBase base ds)

/-- An integer in base ten, within the digit limit. -/
def decimalInteger (cs : List Char) : Except Failure Nat :=
  let ds := digitValues cs
  if ds.length ≤ Decimal.digitLimit then .ok (inBase 10 ds) else fail (.tooManyDigits ds.length)

/-- An integer without its sign, if the scalar is one: in base 2, 16, 8, 10 or 60. -/
def unsignedInteger? : List Char → Option (Except Failure Nat)
  | '0' :: 'b' :: cs =>
    if !cs.isEmpty && cs.all (fun c => c = '0' || c = '1' || c = '_') then
      some (prefixedInteger 2 cs)
    else none
  | '0' :: 'x' :: cs =>
    if !cs.isEmpty && cs.all (fun c => (hexValue? c).isSome || c = '_') then
      some (prefixedInteger 16 cs)
    else none
  | '0' :: cs =>
    if cs.all fun c => ('0' ≤ c && c ≤ '7') || c = '_' then some (.ok (inBase 8 (digitValues cs)))
    else none
  | cs =>
    match splitColons cs with
    | whole :: parts =>
      if isWhole whole && parts.all isSixtieth then
        some ((whole :: parts).foldlM (fun n part => do return 60 * n + (← decimalInteger part)) 0)
      else none
    | [] => none

/-- The integer that a scalar denotes. -/
def integer? (cs : List Char) : Option (Except Failure Int) :=
  let (negative, cs) := splitSign cs
  (unsignedInteger? cs).map fun r => r.map fun n => if negative then -(n : Int) else n

/-- An exponent with its sign, or nothing. -/
def isExponent : List Char → Bool
  | [] => true
  | e :: sign :: ds =>
    (e = 'e' || e = 'E') && (sign = '+' || sign = '-') && !ds.isEmpty && ds.all Char.isDigit
  | _ => false

/-- Whether a scalar without sign is a decimal fraction: it has a point, and digits before
it, or without any sign after it. -/
def isFraction (hasSign : Bool) (cs : List Char) : Bool :=
  let whole := cs.takeWhile isDigitPart
  match cs.dropWhile isDigitPart with
  | '.' :: rest =>
    let digits := rest.takeWhile isDigitPart
    isExponent (rest.dropWhile isDigitPart)
      && (if whole.isEmpty then !hasSign && isWhole digits else isWhole whole)
  | _ => false

/-- The double that the digits of a scalar denote, underscores left out. -/
def realOfDigits (cs : List Char) : Binary64 :=
  (Binary64.ofText? (String.ofList (cs.filter (· ≠ '_')))).getD .nan

/-- A double in base 60, without its sign: the parts are added up from the last. -/
def sixties? (cs : List Char) : Option Binary64 :=
  let whole := cs.takeWhile (· ≠ '.')
  let fraction := cs.dropWhile (· ≠ '.')
  match splitColons whole with
  | first :: part :: parts =>
    if isWhole first && (part :: parts).all isSixtieth && !fraction.isEmpty
        && fraction.tail.all isDigitPart then
      let last := (part :: parts).getLastD [] ++ fraction
      let texts := (first :: (part :: parts).dropLast ++ [last]).reverse
      let terms := texts.zipIdx.map fun e =>
        realOfDigits e.1 * Binary64.ofInt (60 ^ e.2)
      some (terms.foldl (· + ·) (Binary64.zero false))
    else none
  | _ => none

/-- The double that a scalar denotes. -/
def real? (cs : List Char) : Option Binary64 :=
  let (negative, body) := splitSign cs
  let hasSign := body.length < cs.length
  let signed (x : Binary64) : Binary64 := if negative then -x else x
  let word := String.ofList body
  if word = ".inf" || word = ".Inf" || word = ".INF" then some (.inf negative)
  else if !hasSign && (word = ".nan" || word = ".NaN" || word = ".NAN") then some .nan
  else if isFraction hasSign body then some (signed (realOfDigits body))
  else (sixties? body).map signed

/-- The truth value that a scalar denotes. -/
def truth? (s : String) : Option Bool :=
  if ["yes", "Yes", "YES", "true", "True", "TRUE", "on", "On", "ON"].contains s then some true
  else if ["no", "No", "NO", "false", "False", "FALSE", "off", "Off", "OFF"].contains s then
    some false
  else none

/-- Whether a scalar denotes nothing. -/
def isNull (s : String) : Bool := ["", "~", "null", "Null", "NULL"].contains s

/-- The number of days of a month. -/
def daysIn (year month : Nat) : Nat :=
  let leap := year % 4 = 0 && (year % 100 ≠ 0 || year % 400 = 0)
  if month = 2 then (if leap then 29 else 28)
  else if [4, 6, 9, 11].contains month then 30
  else 31

/-- A day of the calendar. -/
def dateOf (year month day : Nat) : Except Failure Datum :=
  if year = 0 then fail (.calendar "year 0 is out of range")
  else if month = 0 || 12 < month then fail (.calendar "month must be in 1..12")
  else if day = 0 || daysIn year month < day then
    fail (.calendar "day is out of range for month")
  else .ok (.date year month day)

/-- The day that a scalar denotes. -/
def date? : List Char → Option (Except Failure Datum)
  | [a, b, c, d, '-', e, f, '-', g, h] =>
    if [a, b, c, d, e, f, g, h].all Char.isDigit then
      some (dateOf (inBase 10 (digitValues [a, b, c, d])) (inBase 10 (digitValues [e, f]))
        (inBase 10 (digitValues [g, h])))
    else none
  | _ => none

/-- The value of a plain scalar. The marks for merged and default entries stand for no
value. -/
def plainValue (s : String) : Except Failure Datum :=
  let cs := s.toList
  if isNull s then .ok .null
  else if s = "<<" || s = "=" then .error .malformed
  else
    match truth? s, integer? cs, real? cs, date? cs with
    | some b, _, _, _ => .ok (.bool b)
    | _, some n, _, _ => n.map .int
    | _, _, some x, _ => .ok (.real x)
    | _, _, _, some d => d
    | _, _, _, _ => .ok (.text s)

/-! ## Trees -/

/-- Whether a value can be a key. -/
def isKey : Datum → Bool
  | .list _ | .map _ => false
  | _ => true

mutual
/-- The value of a tree. An entry whose key is there already gives it a new value. -/
def Node.value : Node → Except Failure Datum
  | .scalar text plain => if plain then plainValue text else .ok (.text text)
  | .sequence items => do return .list (← valuesOf items)
  | .mapping entries => do return .map (← entriesOf [] entries)

/-- The values of some trees. -/
def valuesOf : List Node → Except Failure (List Datum)
  | [] => .ok []
  | n :: ns => do
    let first ← n.value
    return first :: (← valuesOf ns)

/-- The entries of a mapping. -/
def entriesOf (found : List (Datum × Datum)) :
    List (Node × Node) → Except Failure (List (Datum × Datum))
  | [] => .ok found
  | (k, v) :: es => do
    let key ← match k with
      | .scalar "=" true => pure (.text "=")
      | k => k.value
    if !isKey key then .error .malformed
    entriesOf (Datum.insert key (← v.value) found) es
end

/-! ## Texts -/

/-- A character that may stand in a YAML text. -/
def isPermitted (c : Char) : Bool :=
  let n := c.toNat
  n = 9 || n = 10 || n = 13 || (32 ≤ n && n ≤ 126) || n = 133 || (160 ≤ n && n ≤ 0xd7ff)
    || (0xe000 ≤ n && n ≤ 0xfffd) || 0x10000 ≤ n

/-- Reads a text with a single document. -/
def read (content : String) : Except Failure Datum :=
  let cs := Text.unifyLineEnds content.toList
  if cs.all isPermitted then
    match (tokens? cs).bind Node.ofTokens? with
    | some node => node.value
    | none => .error .malformed
  else .error .malformed

end BinaryPoint.Yaml
