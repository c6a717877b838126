/-! # Files by path

A path is a row of names between slashes. It leads to a text file, to a directory or
nowhere.
-/

namespace BinaryPoint

/-- What a path leads to. -/
inductive Found (α : Type)
  | file (content : α)
  | missing
  | directory
  | notDirectory

namespace Found

/-- The same with another form of the content. -/
def map {α β : Type} (f : α → β) : Found α → Found β
  | file content => file (f content)
  | missing => missing
  | directory => directory
  | notDirectory => notDirectory

end Found

namespace Path

/-- The names of a path; empty ones and those of the same directory are left out. -/
def names (path : String) : List String :=
  ((path.splitOn "/").filter fun n => n ≠ "" && n ≠ ".")

/-- What a path begins with: nothing, or the root. Just two slashes are kept apart. -/
def root (path : String) : String :=
  match (path.toList.takeWhile (· = '/')).length with
  | 0 => ""
  | 2 => "//"
  | _ => "/"

/-- The path in its shortest spelling. -/
def normal (path : String) : String :=
  let rest := "/".intercalate (names path)
  if root path = "" && rest = "" then "." else root path ++ rest

end Path

/-- Some files, each under the names of its path. -/
abbrev FileTree (α : Type) := List (List String × α)

namespace FileTree

variable {α : Type}

/-- Files, each given with its path. -/
def ofList (files : List (String × α)) : FileTree α :=
  files.map fun f => (Path.names f.1, f.2)

/-- Whether some file is in a directory or further below. -/
def hasDirectory (t : FileTree α) (dir : List String) : Bool :=
  t.any fun f => dir.length < f.1.length && f.1.take dir.length = dir

/-- Goes on from a directory along some names. -/
def follow (t : FileTree α) (dir : List String) : List String → Found α
  | [] => .directory
  | name :: names =>
    if name = ".." then
      if dir.isEmpty then (if names.all (· = "..") then .directory else .missing)
      else t.follow dir.dropLast names
    else
      let here := dir ++ [name]
      match t.find? (·.1 = here) with
      | some f => if names.isEmpty then .file f.2 else .notDirectory
      | none => if t.hasDirectory here then t.follow here names else .missing

/-- What a path leads to; nothing is known outside the directory of the files. -/
def find (t : FileTree α) (path : String) : Found α :=
  if Path.root path = "" then t.follow [] (Path.names path)
  else if (Path.names path).isEmpty then .directory
  else .missing

end FileTree

end BinaryPoint
