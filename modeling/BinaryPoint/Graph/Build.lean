import BinaryPoint.Config
import BinaryPoint.Graph.Basic
import BinaryPoint.Program.Parser

/-! # Building the constants of a program

Each declaration is evaluated against the constants before it, gets its format from its
tolerance or from its note, and is rounded to that format. A declaration that fails is
reported and left out; the others are built all the same.
-/

namespace BinaryPoint

/-! ## Evaluation against a graph -/

namespace Graph

/-- The values of the names in an expression, as far as they are constants. A list of
samples must not be used in an expression. -/
def environment (g : Graph) :
    List (String × Option Location) → Except Fault (List (String × Binary64))
  | [] => .ok []
  | (name, place) :: others =>
    match g.find? name with
    | none => g.environment others
    | some c => do
      if !c.scalar then refuse (.listInExpression name place)
      let v ← c.value
      .ok ((name, v.toReal) :: (← g.environment others))

/-- The value of an expression, in which scalar constants stand for their rounded values. -/
def evaluate (g : Graph) (e : Expr) : Except Fault Binary64 := do
  let env ← g.environment e.names
  e.eval fun name => (env.find? (·.1 = name)).map (·.2)

end Graph

/-! ## One declaration -/

/-- The format that a note stands for. -/
def FormatNote.resolve (config : Config) : FormatNote → Except Fault Format
  | .explicit signed integerBits fractionalBits _ =>
    Format.ofParts signed (.int integerBits) (.int fractionalBits)
  | .preset name place =>
    match config.preset name with
    | some f => .ok f
    | none => refuse (.unknownPreset name place)
  | .misplaced kind => refuse (.noAttribute kind "name")

namespace Decl

/-- The constant that a declaration refers to by its bare name. -/
def source? (d : Decl) (g : Graph) : Option Constant :=
  match d.value with
  | .name name _ => g.find? name
  | _ => none

/-- The samples of a declaration, and whether it is a scalar. -/
def samples (d : Decl) (g : Graph) : Except Fault (List Binary64 × Bool) :=
  match d.source? g, d.value with
  | some c, _ => .ok (c.reals, c.scalar)
  | none, .list elements _ => do .ok (← elements.mapM g.evaluate, false)
  | none, e => do .ok ([← g.evaluate e], true)

/-- A declaration has a format or a tolerance, and not both. -/
def checkParts (d : Decl) : Except Fault Unit :=
  match d.format, d.tolerance with
  | some _, some _ => refuse (.formatAndTolerance d.name)
  | none, none => refuse (.formatOrTolerance d.name)
  | _, _ => .ok ()

/-- The format of a declaration and the value of its tolerance. -/
def resolve (config : Config) (d : Decl) (g : Graph) (samples : List Binary64) :
    Except Fault (Format × Option Binary64) :=
  match d.tolerance, d.format with
  | some e, _ => do
    let tolerance ← g.evaluate e
    .ok (← Inference.infer samples tolerance config.maxFractionalBits, some tolerance)
  | none, some note => do .ok (← note.resolve config, none)
  | none, none => refuse (.formatOrTolerance d.name)

/-- The values of a declaration in its format: another constant's values reformatted, if it
takes over a constant under a format of its own, and else its samples rounded. -/
def bindSamples (binder : Binder) (d : Decl) (g : Graph) (samples : List Binary64) (f : Format) :
    Binder.Binding (List Fixed) :=
  match d.source? g, d.tolerance with
  | some c, none => c.values.mapM fun v => binder.reformat v f
  | _, _ => binder.bindAll f samples

/-- The constant that a declaration makes. -/
def build (config : Config) (binder : Binder) (d : Decl) (g : Graph) :
    Binder.Binding Constant := do
  .of d.checkParts
  let (samples, scalar) ← .of (d.samples g)
  if samples.isEmpty then .of (refuse (.noSamplesFor d.name d.value.place?))
  let (format, tolerance) ← .of (d.resolve config g samples)
  let values ← d.bindSamples binder g samples format
  return ⟨d.name, format, values, scalar, tolerance, d.place⟩

end Decl

/-! ## The whole program -/

namespace Program

/-- A graph so far, and what was reported so far. -/
structure Built where
  graph : Graph
  diagnostics : List Diagnostic := []

/-- The report of a name that is declared once more. -/
def duplicate (d : Decl) : Diagnostic :=
  ⟨.error, s!"Duplicate constant declaration {d.name}", d.place⟩

/-- Adds one declaration. A fault that is no matter of the program ends the build. -/
def addDecl (config : Config) (binder : Binder) (built : Built) (d : Decl) :
    Binder.Binding Built := do
  if built.graph.contains d.name then
    return { built with diagnostics := built.diagnostics ++ [duplicate d] }
  match ← (d.build config binder built.graph).outcome with
  | .ok c => return { built with graph := built.graph.push c }
  | .error f =>
    if f.reported then
      return { built with diagnostics := built.diagnostics ++ [.ofFault f d.place] }
    throw f

/-- Builds the constants of a program. -/
def build (config : Config) (binder : Binder) (p : Program) : Binder.Binding Built :=
  p.statements.foldlM (addDecl config binder) { graph := { name := p.name } }

/-- Parses and builds a source text; everything reported is in the order of reporting. -/
def compile (config : Config) (binder : Binder) (source file : String) :
    Binder.Binding Built := do
  let (program, found) ← .of (parse source file)
  let built ← program.build config binder
  return { built with diagnostics := found ++ built.diagnostics }

end Program

end BinaryPoint
