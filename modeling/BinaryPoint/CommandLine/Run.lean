import BinaryPoint.CommandLine.Request
import BinaryPoint.Graph.Build
import BinaryPoint.Graph.Report
import BinaryPoint.Registry.File
import BinaryPoint.Sorted

/-! # Runs

What a request writes, given what its paths lead to. A fault that is neither about the
program nor about the registry ends the run without output.
-/

namespace BinaryPoint.CommandLine

/-- Lines of output. -/
def joinLines (lines : List String) : String := String.join (lines.map (· ++ "\n"))

/-- A run that fails with a message. -/
def failed (text : String) : Output := { err := text, code := 1 }

/-! ## Compiling -/

/-- What a run writes about a registry that cannot be used. The line about an unreadable
text is left open for a description of what is wrong with it. -/
def registryFailure (f : Fault) : Output :=
  match f with
  | .registryUnreadable _ => failed s!"error: {f.message}"
  | _ => failed (joinLines [s!"error: {f.message}"])

/-- The content of a source file, or why it cannot be read. -/
def sourceText : Found String → Except String String
  | .file content => .ok (Text.readText content)
  | .missing => .error "No such file or directory"
  | .directory => .error "Is a directory"
  | .notDirectory => .error "Not a directory"

/-- The configuration of a compilation: from a file if one is named. -/
def configOf (look : String → Found String) : Option String → Except Fault Config
  | some path => Registry.ofFile path ((look path).map Yaml.read)
  | none => .ok .standard

/-- Compiles a source text and writes its graph. -/
def compileText (config : Config) (content file : String) (json : Bool) :
    Except Fault Output := do
  let built ← ((Program.compile config (config.binder 0) content file).runOn {}).1
  let out ←
    if json then do pure [← (← built.graph.toJson).render]
    else built.graph.table
  .ok { out := joinLines out
        err := joinLines (built.diagnostics.map Diagnostic.text)
        code := if Diagnostic.hasErrors built.diagnostics then 1 else 0 }

/-- Compiles a source file. -/
def compile (look : String → Found String) (source : String) (config : Option String)
    (json : Bool) : Except Fault Output :=
  match configOf look config with
  | .error f => if f.kind = .config then .ok (registryFailure f) else .error f
  | .ok config =>
    match sourceText (look source) with
    | .error reason => .ok (failed (joinLines [s!"error: cannot read {source}: {reason}"]))
    | .ok content => compileText config content source json

/-! ## Checking registries -/

/-- The name of a preset in the list of presets: texts are filled up, a date gives way to
the form it was asked for, and there is no such form of anything else. -/
def nameColumn : Datum → Except Fault String
  | .text name => .ok (Text.padRight 12 name)
  | .date .. => .ok "12s"
  | name => refuse (.columnText name.typeName name.number?.isSome)

/-- A preset on a line. -/
def presetLine (e : Datum × Datum) : Except Fault String := do
  let name ← nameColumn e.1
  let sign := match Registry.part "signed" e.2 with
    | .bool true => "sfix"
    | _ => "ufix"
  let integerBits ← Rule.plain (Registry.part "integer_bits" e.2)
  let fractionalBits ← Rule.plain (Registry.part "fractional_bits" e.2)
  .ok s!"  {name} {sign}<{integerBits},{fractionalBits}>"

/-- Lists what is wrong with a registry, or else its presets by name. -/
def checkDocument (path : String) (d : Datum) : Except Fault Output := do
  match ← Registry.problems d with
  | [] =>
    let sorted ← Sorted.sortBy (fun a b => a.1.compare .less b.1) (Registry.presets d)
    let lines ← sorted.mapM presetLine
    .ok { out := joinLines ([s!"{path}: {sorted.length} presets"] ++ lines
            ++ ["✓ Registry valid"]) }
  | problems =>
    .ok { out := joinLines (s!"{path}: {problems.length} problem(s)"
            :: problems.map ("  ✗ " ++ ·))
          code := 1 }

/-- Checks what a path leads to. -/
def checkFound (path : String) : Found Registry.Reading → Except Fault Output
  | .file (.ok d) => checkDocument path d
  | .file (.error .malformed) => .ok (failed s!"error: invalid YAML in {path}")
  | .file (.error (.fault f)) => .error f
  | .missing => .ok (failed (joinLines [s!"error: file not found: {path}"]))
  | .directory => refuse (.isDirectory path)
  | .notDirectory => refuse (.notDirectory path)

/-- How the standard registry is named. -/
def standardName : String := "<packaged>"

/-- Checks the registry at a path, or the standard one. -/
def checkRegistry (look : String → Found String) : Option String → Except Fault Output
  | some path => checkFound path ((look path).map Yaml.read)
  | none => checkDocument standardName Registry.standard

/-! ## Both -/

namespace Request

/-- The paths that a run looks at. -/
def paths : Request → List String
  | .compile source config _ => config.toList.map Path.normal ++ [Path.normal source]
  | .checkRegistry path => path.toList.map Path.normal

/-- What a request writes. -/
def run (look : String → Found String) : Request → Except Fault Output
  | .compile source config json =>
    CommandLine.compile look (Path.normal source) (config.map Path.normal) json
  | .checkRegistry path => CommandLine.checkRegistry look (path.map Path.normal)

end Request

/-- What a command line writes. -/
def run (look : String → Found String) (args : List String) : Except Fault Output :=
  match Request.ofArguments args with
  | .error output => .ok output
  | .ok request => request.run look

end BinaryPoint.CommandLine
