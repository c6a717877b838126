import BinaryPoint.Config
import BinaryPoint.Datum.Operators
import BinaryPoint.Registry.Rule

/-! # Format registries

A registry is a document with a version, the limits of inference and binding, and named
formats. Checking it lists all that is wrong: first against the rules for its shape, and
if those hold, whether names clash with words of programs and formats fit the limit.
-/

namespace BinaryPoint.Registry

/-! ## The rules -/

/-- A whole number not below a bound. -/
def count (least : Int) : Rule := .all [.ofType .integer, .atLeast least]

/-- A named format. -/
def presetRule : Rule := .all
  [ .ofType .object,
    .required ["signed", "integer_bits", "fractional_bits"],
    .only ["signed", "integer_bits", "fractional_bits", "description"],
    .entry "signed" (.ofType .boolean),
    .entry "integer_bits" (count 0),
    .entry "fractional_bits" (count 0),
    .entry "description" (.ofType .string) ]

/-- A mapping with a single limit. -/
def limitRule (key : String) (rule : Rule) : Rule := .all
  [.ofType .object, .required [key], .only [key], .entry key rule]

/-- The shape of a registry. -/
def shape : Rule := .all
  [ .ofType .object,
    .required ["version", "inference", "binding", "formats"],
    .only ["version", "inference", "binding", "formats"],
    .entry "version" (.all [.ofType .string, .matching .version]),
    .entry "inference" (limitRule "max_fractional_bits"
      (.all [.ofType .integer, .atLeast 0, .atMost 1074])),
    .entry "binding" (limitRule "max_total_bits" (count 1)),
    .entry "formats" (.all [.ofType .object, .keys (.matching .name), .values presetRule]) ]

/-! ## Parts of a registry -/

/-- An entry of a mapping; null if there is none. -/
def part (key : String) : Datum → Datum
  | .map es => (Datum.lookup (.text key) es).getD .null
  | _ => .null

/-- The bound on fractional widths. -/
def maxFractionalBits (d : Datum) : Datum := part "max_fractional_bits" (part "inference" d)

/-- The bound on the width of value types. -/
def maxTotalBits (d : Datum) : Datum := part "max_total_bits" (part "binding" d)

/-- The presets, by name. -/
def presets (d : Datum) : List (Datum × Datum) :=
  match part "formats" d with
  | .map es => es
  | _ => []

/-! ## Checking -/

/-- The words that a preset must not be named. -/
def reservedNames : List String := ["const", "program", "within", "sfix", "ufix"]

/-- The sum of a preset's bits. -/
def presetWidth (preset : Datum) : Except Fault Datum := do
  let sign : Datum := .int ((part "signed" preset).integer?.getD 0)
  (← sign.add (part "integer_bits" preset)).add (part "fractional_bits" preset)

/-- What is wrong with a preset of the right shape. -/
def presetProblems (limit : Datum) (e : Datum × Datum) : Except Fault (List String) := do
  let name := Rule.plain e.1
  let reserved := reservedNames.any fun w => e.1.eq (.text w)
  let width ← presetWidth e.2
  let tooWide ← width.compare .greater limit
  let clash ← if reserved then do pure [s!"formats -> {← name}: name is reserved"] else pure []
  if tooWide then
    let name ← name
    let bits ← Rule.plain width
    let most ← Rule.plain limit
    .ok (clash ++ [s!"formats -> {name}: width {bits} exceeds binding.max_total_bits {most}"])
  else .ok clash

/-- Everything that is wrong with a registry. -/
def problems (d : Datum) : Except Fault (List String) := do
  match ← shape d with
  | [] => do .ok (← (presets d).mapM (presetProblems (maxTotalBits d))).flatten
  | found => .ok ((Problem.sorted found).map Problem.line)

/-! ## Loading -/

/-- A preset and its format. -/
def presetFormat (e : Datum × Datum) : Except Fault (Datum × Format) := do
  .ok (e.1, ← Format.ofParts (part "signed" e.2) (part "integer_bits" e.2)
    (part "fractional_bits" e.2))

/-- The configuration in a registry that comes from the given file. -/
def load (file : String) (d : Datum) : Except Fault Config := do
  let found ← problems d
  if !found.isEmpty then refuse (.registryInvalid file found)
  let formats ← (presets d).mapM presetFormat
  .ok { maxFractionalBits := maxFractionalBits d
        maxTotalBits := maxTotalBits d
        formats }

/-! ## The standard registry -/

/-- A preset as a registry holds it. -/
def ofFormat (f : Format) : Datum := .map
  [ (.text "signed", .bool f.signed),
    (.text "integer_bits", .int f.integerBits),
    (.text "fractional_bits", .int f.fractionalBits) ]

/-- A configuration as a registry. -/
def ofConfig (c : Config) : Datum := .map
  [ (.text "version", .text "1.0"),
    (.text "inference", .map [(.text "max_fractional_bits", c.maxFractionalBits)]),
    (.text "binding", .map [(.text "max_total_bits", c.maxTotalBits)]),
    (.text "formats", .map (c.formats.map fun e => (e.1, ofFormat e.2))) ]

/-- The registry that is used unless another one is given. -/
def standard : Datum := ofConfig .standard

end BinaryPoint.Registry
