import BinaryPoint.Fault

/-! # Diagnostics

What is reported about a program while it is read and built, in the order of reporting.
-/

namespace BinaryPoint

/-- How serious a diagnostic is. -/
inductive Severity
  | error
  | warning
  | note
deriving DecidableEq, Repr

/-- The name of a severity. -/
def Severity.text : Severity → String
  | .error => "error"
  | .warning => "warning"
  | .note => "note"

/-- One message about a program. -/
structure Diagnostic where
  severity : Severity
  message : String
  place : Option Location
deriving DecidableEq, Repr

namespace Diagnostic

/-- A diagnostic on one line, its position first if it has one. -/
def text (d : Diagnostic) : String :=
  let lead := match d.place with
    | some p => p.text ++ ": "
    | none => ""
  s!"{lead}{d.severity.text}: {d.message}"

/-- An error at a position. -/
def errorAt (message : String) (place : Location) : Diagnostic := ⟨.error, message, some place⟩

/-- An error whose cause may carry a position of its own, which comes before the given one. -/
def report (message : String) (carried place : Option Location) : Diagnostic :=
  ⟨.error, message, carried.or place⟩

/-- A fault as a diagnostic. -/
def ofFault (f : Fault) (place : Option Location) : Diagnostic :=
  report f.message f.place? place

/-- The errors among diagnostics. -/
def errors (ds : List Diagnostic) : List Diagnostic := ds.filter (·.severity = .error)

/-- Whether some diagnostic is an error. -/
def hasErrors (ds : List Diagnostic) : Bool := ds.any (·.severity = .error)

/-- All diagnostics, a line each. -/
def format (ds : List Diagnostic) : String := "\n".intercalate (ds.map text)

end Diagnostic

end BinaryPoint
