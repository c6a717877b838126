import BinaryPoint.CommandLine.Run

/-! # The program

Looks at the files that the arguments name, and writes what the run comes to.
-/

namespace BinaryPoint

/-- What a path leads to in the file system. -/
def lookAt (path : String) : IO (Found String) := do
  try
    return .file (← IO.FS.readFile path)
  catch e =>
    match e with
    | .noFileOrDirectory .. => return .missing
    | .inappropriateType _ code _ => return if code = 21 then .directory else .notDirectory
    | e => throw e

/-- Writes an output and gives its code. -/
def finish (o : CommandLine.Output) : IO UInt32 := do
  (← IO.getStdout).putStr o.out
  (← IO.getStderr).putStr o.err
  return o.code.toUInt32

end BinaryPoint

open BinaryPoint in
/-- Runs the program. -/
def main (args : List String) : IO UInt32 := do
  match CommandLine.Request.ofArguments args with
  | .error output => finish output
  | .ok request =>
    let found ← request.paths.mapM fun p => do return (p, ← lookAt p)
    let look (path : String) := ((found.find? (·.1 = path)).map (·.2)).getD .missing
    match request.run look with
    | .ok output => finish output
    | .error f => finish { err := f.message ++ "\n", code := 1 }
