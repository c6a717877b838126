import BinaryPoint.Datum.Printer
import BinaryPoint.Format.Key
import BinaryPoint.Location
import BinaryPoint.Program.Wanted

/-! # Faults

Everything that can go wrong, by cause. `message?` words a fault and `kind` sorts it;
`reported` faults concern the program at hand and become diagnostics, the others end
the run. A fault whose wording would need an integer that is too long to be written
is replaced by that fact when it is raised.
-/

namespace BinaryPoint

/-- The two widths of a format. -/
inductive WidthField
  | integerBits
  | fractionalBits
deriving DecidableEq, Repr

/-- The name of a width in messages. -/
def WidthField.text : WidthField → String
  | .integerBits => "integer_bits"
  | .fractionalBits => "fractional_bits"

/-- The classes that faults fall into. -/
inductive FaultKind
  | general | invalidFormat | config | emptyInput | invalidTolerance | invalidSample
  | toleranceUnreachable | valueOutOfRange | synthesisFailure | formatMismatch | evaluation | parse
  | type | value | overflow | key | index | attribute | runtime | directory | notDirectory
  | emptyRegister
deriving DecidableEq, Repr

/-- What went wrong. -/
inductive Fault
  -- making and reading formats
  | signNotBool (got : Datum)
  | widthNotInteger (field : WidthField) (got : Datum)
  | widthNegative (field : WidthField) (got : Int)
  | malformedKey (key : String)
  -- registries
  | registryMissing (path : String)
  | registryUnreadable (path : String)
  | registryInvalid (path : String) (problems : List String)
  -- inference
  | noSamples
  | noSamplesFor (name : String) (place : Option Location)
  | toleranceNotNumber (got : Datum)
  | toleranceNotPositive (got : Datum)
  | sampleNotFinite (index : Nat) (got : Binary64)
  | toleranceTooFine (tolerance : Binary64) (bound : Datum)
  | widthsExhausted (bound : Datum) (samples : Nat) (tolerance : Binary64)
  -- binding
  | notFormat (got : Datum)
  | tooWide (format : Format) (limit : Datum)
  | beyondDoubles (format : Format)
  | valueNotFinite (got : Binary64) (format : Format)
  | outOfRange (raw : Int) (format : Format)
  | formatsDiffer (left right : Format)
  | slotFormat (name : String) (held given : Format)
  | notTyped (typeName : String)
  | directConstruction (typeName : String)
  | immutable (typeName : String)
  -- expressions and declarations
  | literalTooLarge (place : Option Location)
  | unknownScalar (name : String) (place : Option Location)
  | listInExpression (name : String) (place : Option Location)
  | zeroDivision (place : Option Location)
  | resultOverflow (place : Option Location)
  | unknownOperator (symbol : String) (place : Option Location)
  | unknownSign (symbol : String) (place : Option Location)
  | listInside (place : Option Location)
  | notExpression (kind : String) (place : Option Location)
  | formatAndTolerance (name : String)
  | formatOrTolerance (name : String)
  | unknownPreset (name : String) (place : Option Location)
  | notScalar (name : String)
  | duplicateConstant (name : String)
  | badSyntax (wanted : Wanted) (place : Location)
  -- numbers
  | notNumberText (text : String)
  | notReal (typeName : String)
  | integerTooLarge
  | ratioOfInfinity
  | ratioOfNaN
  | negativeShift
  | powerRange
  | exponentNotInteger
  | tooManyDigits (count : Nat)
  | integerTooLong
  -- operators on untyped operands
  | operands (symbol left right : String)
  | unordered (symbol left right : String)
  | concatenation (sequence other : String)
  | repetition (typeName : String)
  | signOperand (symbol typeName : String)
  | noAttribute (typeName name : String)
  | unhashable (typeName : String)
  -- stores, files and the outside
  | noKey (key : Datum)
  | readIndex (index : Int)
  | writeIndex (index : Int)
  | columnText (typeName : String) (isNumber : Bool)
  | isDirectory (path : String)
  | notDirectory (path : String)
  | calendar (text : String)
  | noDigits (base : Nat)
  | factory (text : String)
  | emptyRegister (name : String)

namespace Fault

/-- The class of a fault. -/
def kind : Fault → FaultKind
  | signNotBool _ | widthNotInteger .. | widthNegative .. | malformedKey _ => .invalidFormat
  | registryMissing _ | registryUnreadable _ | registryInvalid .. => .config
  | noSamples | noSamplesFor .. => .emptyInput
  | toleranceNotNumber _ | toleranceNotPositive _ => .invalidTolerance
  | sampleNotFinite .. => .invalidSample
  | toleranceTooFine .. | widthsExhausted .. => .toleranceUnreachable
  | notFormat _ | tooWide .. | beyondDoubles _ => .synthesisFailure
  | valueNotFinite .. | outOfRange .. => .valueOutOfRange
  | formatsDiffer .. | slotFormat .. => .formatMismatch
  | literalTooLarge _ | unknownScalar .. | listInExpression .. | zeroDivision _
  | resultOverflow _ | unknownOperator .. | unknownSign .. | listInside _ | notExpression .. =>
    .evaluation
  | formatAndTolerance _ | formatOrTolerance _ | unknownPreset .. => .general
  | badSyntax .. => .parse
  | notTyped _ | directConstruction _ | notScalar _ | notReal _ | exponentNotInteger
  | operands .. | unordered .. | concatenation .. | repetition _ | signOperand ..
  | unhashable _ => .type
  | columnText _ isNumber => if isNumber then .value else .type
  | immutable _ | noAttribute .. => .attribute
  | duplicateConstant _ | notNumberText _ | ratioOfNaN | negativeShift | tooManyDigits _
  | integerTooLong | calendar _ | noDigits _ => .value
  | integerTooLarge | ratioOfInfinity | powerRange => .overflow
  | noKey _ => .key
  | readIndex _ | writeIndex _ => .index
  | isDirectory _ => .directory
  | notDirectory _ => .notDirectory
  | factory _ => .runtime
  | emptyRegister _ => .emptyRegister

/-- Whether a fault concerns the program or data at hand, so that a build reports it and
goes on. -/
def reported (f : Fault) : Bool :=
  match f.kind with
  | .general | .invalidFormat | .config | .emptyInput | .invalidTolerance | .invalidSample
  | .toleranceUnreachable | .valueOutOfRange | .synthesisFailure | .formatMismatch
  | .evaluation | .parse => true
  | _ => false

/-- The position that a fault carries itself. -/
def place? : Fault → Option Location
  | noSamplesFor _ p | literalTooLarge p | unknownScalar _ p | listInExpression _ p
  | zeroDivision p | resultOverflow p | unknownOperator _ p | unknownSign _ p | listInside p
  | notExpression _ p | unknownPreset _ p => p
  | badSyntax _ p => some p
  | _ => none

/-- The real value of a scaled integer as messages give it: as a double, or as a product
where that would overflow. -/
def describeRaw? (raw : Int) (fractionalBits : Nat) : Option String :=
  let x := Binary64.ofRatio (raw < 0) raw.natAbs (2 ^ fractionalBits)
  if x.isFinite then some x.text
  else do
    let r ← Decimal.write? raw
    let f ← Decimal.write? fractionalBits
    some (r ++ " * 2**-" ++ f)

/-- A heading with problems under it, a line each. -/
def withProblems (heading : String) (problems : List String) : String :=
  "\n".intercalate (heading :: problems.map ("  - " ++ ·))

/-- The wording of an index at which there is no item, which may be too large to be one. -/
def indexText (index : Int) (outOfRange : String) : String :=
  if Int64.minValue.toInt ≤ index ∧ index ≤ Int64.maxValue.toInt then outOfRange
  else "cannot fit 'int' into an index-sized integer"

/-- The wording of a fault; there is none if it names an integer that is too long. -/
def message? : Fault → Option String
  | signNotBool got => do some s!"signed must be a bool, got {← got.shown?}"
  | widthNotInteger field got => do some s!"{field.text} must be an integer, got {← got.shown?}"
  | widthNegative field got => do
    some s!"{field.text} must be non-negative, got {← Decimal.write? got}"
  | malformedKey key =>
    some s!"Malformed format key {Text.quoted key} (expected sfix<I,F> or ufix<I,F>)"
  | registryMissing path => some s!"Format registry not found: {path}"
  | registryUnreadable path => some s!"Invalid YAML in {path}"
  | registryInvalid path problems =>
    some (withProblems s!"Invalid format registry {path}" problems)
  | noSamples => some "Cannot infer a format from an empty sample set"
  | noSamplesFor name _ => some s!"Constant {name} has an empty sample list"
  | toleranceNotNumber got => do some s!"Tolerance must be a number, got {← got.shown?}"
  | toleranceNotPositive got => do
    some s!"Tolerance must be a positive finite number, got {← got.shown?}"
  | sampleNotFinite index got => some s!"Sample {index} is not finite: {got.text}"
  | toleranceTooFine tolerance bound => do
    some (s!"Tolerance {tolerance.text} is below half the finest step "
      ++ s!"2^-{← bound.plain?} of the fractional-width search")
  | widthsExhausted bound samples tolerance => do
    some (s!"No fractional width up to {← bound.plain?} bits represents all "
      ++ s!"{samples} samples within {tolerance.text}")
  | notFormat got => do some s!"Expected a FormatDescriptor, got {← got.shown?}"
  | tooWide format limit => do
    some (s!"{← format.key?} is {← Decimal.write? format.width} bits wide; "
      ++ s!"the limit is {← limit.plain?}")
  | beyondDoubles format => do
    some (s!"{← format.key?} holds values beyond the float range; "
      ++ "integer_bits must be below 1024")
  | valueNotFinite got format => do
    some s!"{got.text} cannot be represented in {← format.key?}"
  | outOfRange raw format => do
    some (s!"{← describeRaw? raw format.fractionalBits} is outside the range "
      ++ s!"[{format.minValue.text}, {format.maxValue.text}] of {← format.key?}")
  | formatsDiffer left right => do some s!"Cannot combine {← left.key?} with {← right.key?}"
  | slotFormat name held given => do
    some s!"Constant {name} holds {← held.key?} values, not {← given.key?}"
  | notTyped typeName => some s!"Expected a FixedValue, got {typeName}"
  | directConstruction typeName =>
    some s!"{typeName} values are created with DynamicTypeBinder.bind"
  | immutable typeName => some s!"{typeName} is immutable"
  | literalTooLarge _ => some "Integer literal is too large for a value expression"
  | unknownScalar name _ => some s!"Unknown scalar constant {name}"
  | listInExpression name _ =>
    some s!"Constant {name} is a sample list and cannot be used in an expression"
  | zeroDivision _ => some "Division by zero in value expression"
  | resultOverflow _ => some "Value expression overflows"
  | unknownOperator symbol _ => some s!"Unknown operator: {Text.quoted symbol}"
  | unknownSign symbol _ => some s!"Unknown unary operator: {Text.quoted symbol}"
  | listInside _ => some "Sample lists cannot appear inside an expression"
  | notExpression kind _ => some s!"Cannot evaluate expression type: {kind}"
  | formatAndTolerance name =>
    some s!"Constant {name} cannot have both an explicit format and a tolerance"
  | formatOrTolerance name =>
    some s!"Constant {name} needs an explicit format or a 'within' tolerance"
  | unknownPreset name _ => some s!"Unknown format preset {name}"
  | notScalar name => some s!"Constant {name} is a sample list, not a scalar"
  | duplicateConstant name => some s!"Duplicate constant {name}"
  | badSyntax wanted _ => some wanted.text
  | notNumberText text => some s!"could not convert string to float: {Text.quoted text}"
  | notReal typeName =>
    some s!"float() argument must be a string or a real number, not '{typeName}'"
  | integerTooLarge => some "int too large to convert to float"
  | ratioOfInfinity => some "cannot convert Infinity to integer ratio"
  | ratioOfNaN => some "cannot convert NaN to integer ratio"
  | negativeShift => some "negative shift count"
  | powerRange => some "math range error"
  | exponentNotInteger => some "Expected an int as second argument to ldexp."
  | tooManyDigits count =>
    some (s!"Exceeds the limit (4300 digits) for integer string conversion: value has {count} "
      ++ "digits; use sys.set_int_max_str_digits() to increase the limit")
  | integerTooLong =>
    some ("Exceeds the limit (4300 digits) for integer string conversion; "
      ++ "use sys.set_int_max_str_digits() to increase the limit")
  | operands symbol left right =>
    some s!"unsupported operand type(s) for {symbol}: '{left}' and '{right}'"
  | unordered symbol left right =>
    some s!"'{symbol}' not supported between instances of '{left}' and '{right}'"
  | concatenation sequence other =>
    some s!"can only concatenate {sequence} (not \"{other}\") to {sequence}"
  | repetition typeName => some s!"can't multiply sequence by non-int of type '{typeName}'"
  | signOperand symbol typeName => some s!"bad operand type for {symbol}: '{typeName}'"
  | noAttribute typeName name => some s!"'{typeName}' object has no attribute '{name}'"
  | unhashable typeName => some s!"unhashable type: '{typeName}'"
  | noKey key => key.shown?
  | readIndex index => some (indexText index "list index out of range")
  | writeIndex index => some (indexText index "list assignment index out of range")
  | columnText typeName isNumber =>
    some (if isNumber then s!"Unknown format code 's' for object of type '{typeName}'"
      else s!"unsupported format string passed to {typeName}.__format__")
  | isDirectory path => some s!"[Errno 21] Is a directory: {Text.quoted path}"
  | notDirectory path => some s!"[Errno 20] Not a directory: {Text.quoted path}"
  | calendar text => some text
  | noDigits base => some s!"invalid literal for int() with base {base}: ''"
  | factory text => some text
  | emptyRegister name => some name

/-- The fault as it is raised: itself if it can be worded. -/
def settled (f : Fault) : Fault := if f.message?.isSome then f else .integerTooLong

/-- The wording of a raised fault. -/
def message (f : Fault) : String := f.message?.getD ""

end Fault

/-- Fails with a fault, as it is raised. -/
def refuse {α : Type} (f : Fault) : Except Fault α := .error f.settled

/-- The text of an integer, refused if it is too long. -/
def integerText (n : Int) : Except Fault String :=
  match Decimal.write? n with
  | some s => .ok s
  | none => .error .integerTooLong

end BinaryPoint
