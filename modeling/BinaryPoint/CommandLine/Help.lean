import BinaryPoint.CommandLine.Command
import BinaryPoint.Text.Quoted

/-! # Usage and help

The usage line of a command, and its help: what it is for, then its arguments and flags in
two columns. The second column starts after the longest entry of the first, but no further
right than `widestColumn`; an entry that is too long for that has its line to itself.
-/

namespace BinaryPoint.CommandLine

/-- A flag in a usage line: its shortest spelling. -/
def Flag.usage (f : Flag) : String :=
  "[" ++ f.names.headD "" ++ f.valueText ++ "]"

/-- An entry of a help text. -/
structure HelpRow where
  indent : Nat
  entry : String
  help : String

/-- Where the second column starts at the latest. -/
def widestColumn : Nat := 24

namespace HelpRow

/-- The columns that an entry takes. -/
def width (r : HelpRow) : Nat := r.indent + r.entry.length

/-- A text after some spaces. -/
def spaced (n : Nat) (s : String) : String := String.ofList (List.replicate n ' ') ++ s

/-- The lines of an entry, its help in the given column. -/
def lines (column : Nat) (r : HelpRow) : List String :=
  if r.help.isEmpty then [spaced r.indent r.entry]
  else if r.width + 2 ≤ column then
    [Text.padRight column (spaced r.indent r.entry) ++ r.help]
  else [spaced r.indent r.entry, spaced column r.help]

end HelpRow

/-- The entries for the arguments that are no flags. -/
def Positional.rows : Positional → List HelpRow
  | one name help => [⟨2, name, help⟩]
  | atMostOne name help => [⟨2, name, help⟩]
  | command choices => ⟨2, choiceText choices, ""⟩ :: choices.map fun c => ⟨4, c.1, c.2⟩

/-- The entry for a flag. -/
def Flag.row (f : Flag) : HelpRow :=
  ⟨2, ", ".intercalate (f.names.map (· ++ f.valueText)), f.help⟩

namespace Command

/-- The usage line of a command. -/
def usage (c : Command) : String :=
  " ".intercalate (["usage:", c.name] ++ c.allFlags.map Flag.usage ++ [c.positional.usage])

/-- The help of a command. -/
def help (c : Command) : String :=
  let arguments := c.positional.rows
  let flags := c.allFlags.map Flag.row
  let widest := ((arguments ++ flags).map HelpRow.width).foldl max 0
  let column := min (widest + 2) widestColumn
  let block (title : String) (rows : List HelpRow) :=
    "\n".intercalate (title :: rows.flatMap (HelpRow.lines column))
  "\n\n".intercalate ([c.usage] ++ c.about.toList
    ++ [block "positional arguments:" arguments, block "options:" flags]) ++ "\n"

/-- What is written when the arguments of a command are wrong. -/
def complaint (c : Command) (text : String) : String :=
  c.usage ++ "\n" ++ c.name ++ ": error: " ++ text ++ "\n"

end Command

end BinaryPoint.CommandLine
