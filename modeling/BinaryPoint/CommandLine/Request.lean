import BinaryPoint.CommandLine.Arguments
import BinaryPoint.CommandLine.Help

/-! # What a run is asked to do

There are two commands: one compiles a program of constants, the other checks a registry.
-/

namespace BinaryPoint.CommandLine

/-- What a run writes, and the code that it ends with. -/
structure Output where
  out : String := ""
  err : String := ""
  code : Nat := 0
deriving DecidableEq, Repr

/-- What a run is asked to do. -/
inductive Request
  | compile (source : String) (config : Option String) (json : Bool)
  | checkRegistry (path : Option String)
deriving DecidableEq, Repr

/-! ## The commands -/

/-- The switch for JSON output. -/
def jsonFlag : Flag := .switch none "json" "Emit the graph as JSON"

/-- The setting for the registry of a compilation. -/
def configFlag : Flag := .setting "config" "CONFIG" "Format registry YAML (default: packaged)"

/-- The command that compiles a program. -/
def compileCommand : Command where
  name := "fixc compile"
  flags := [configFlag, jsonFlag]
  positional := .one "source" "Constant program file"

/-- The command that checks a registry. -/
def checkCommand : Command where
  name := "fixc check-registry"
  positional := .atMostOne "registry" "Registry YAML (default: packaged)"

/-- The command that all others belong to. -/
def mainCommand : Command where
  name := "fixc"
  about := some "Fixed-point constant compiler"
  flags := [.switch (some 'v') "verbose" "-v for info, -vv for debug"]
  positional := .command
    [ ("compile", "Infer formats and bind the constants of a program"),
      ("check-registry", "Validate a format registry file") ]

/-! ## From arguments to requests -/

/-- What is written when a command stops before its run. -/
def Command.stopped (c : Command) : Stop → Output
  | .help => { out := c.help }
  | .misuse text => { err := c.complaint text, code := 2 }

/-- The arguments of a command, or what is written instead of running it. -/
def Command.accept (c : Command) (args : List String) : Except Output Arguments :=
  (c.read args).mapError c.stopped

/-- A command that does not exist. -/
def invalidChoice (choices : List (String × String)) (name : String) : Stop :=
  let known := ", ".intercalate (choices.map fun c => Text.quoted c.1)
  .misuse (s!"argument command: invalid choice: {Text.quoted name} " ++ s!"(choose from {known})")

/-- Fails if there are arguments that nothing takes. -/
def refuseUnread (unread : List String) : Except Output Unit :=
  if unread.isEmpty then .ok ()
  else
    let list := " ".intercalate unread
    .error (mainCommand.stopped (.misuse s!"unrecognized arguments: {list}"))

namespace Request

/-- A request to compile. The last of several settings counts. -/
def ofCompile (found : Arguments) : Request :=
  let config := (found.flags.reverse.find? (·.1 = configFlag)).bind (·.2)
  compile (found.operands.headD "") config (found.flags.any (·.1 = jsonFlag))

/-- A request to check a registry. An empty path counts as none. -/
def ofCheck (found : Arguments) : Request :=
  checkRegistry (found.operands.head?.filter (· ≠ ""))

/-- What the arguments ask for, or what is written instead. -/
def ofArguments (args : List String) : Except Output Request := do
  let found ← mainCommand.accept args
  let finish (c : Command) (make : Arguments → Request) (args : List String) := do
    let own ← c.accept args
    refuseUnread (found.unread ++ own.unread)
    .ok (make own)
  match found.operands, mainCommand.positional with
  | "compile" :: args, _ => finish compileCommand ofCompile args
  | "check-registry" :: args, _ => finish checkCommand ofCheck args
  | name :: _, .command choices => .error (mainCommand.stopped (invalidChoice choices name))
  | _, _ => .error {}

end Request

end BinaryPoint.CommandLine
