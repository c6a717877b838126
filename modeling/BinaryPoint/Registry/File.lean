import BinaryPoint.File
import BinaryPoint.Registry.Basic
import BinaryPoint.Yaml.Meaning

/-! # Registry files

A registry is kept as a YAML text. What stands in the way of reading it is worded with the
path of the file.
-/

namespace BinaryPoint.Registry

/-- The outcome of reading a document. -/
abbrev Reading := Except Yaml.Failure Datum

/-- The configuration that a path leads to. -/
def ofFile (path : String) : Found Reading → Except Fault Config
  | .file (.ok d) => load path d
  | .file (.error .malformed) => refuse (.registryUnreadable path)
  | .file (.error (.fault f)) => .error f
  | .missing => refuse (.registryMissing path)
  | .directory => refuse (.isDirectory path)
  | .notDirectory => refuse (.notDirectory path)

end BinaryPoint.Registry
