/-! # Commands and their flags

What a command takes on the command line: flags, and after or between them the arguments
that are no flags.
-/

namespace BinaryPoint.CommandLine

/-- A flag. A switch stands alone and may have a letter besides its word; a setting takes a
value. -/
inductive Flag
  | switch (letter : Option Char) (word help : String)
  | setting (word value help : String)
deriving DecidableEq, Repr

namespace Flag

/-- The word of a flag. -/
def word : Flag → String
  | switch _ word _ => word
  | setting word _ _ => word

/-- What help says about a flag. -/
def help : Flag → String
  | switch _ _ help => help
  | setting _ _ help => help

/-- The letter of a flag. -/
def letter? : Flag → Option Char
  | switch letter _ _ => letter
  | setting .. => none

/-- A flag as a word. -/
def long (f : Flag) : String := "--" ++ f.word

/-- All spellings of a flag, the letter first. -/
def names (f : Flag) : List String :=
  (f.letter?.map fun c => String.ofList ['-', c]).toList ++ [f.long]

/-- A flag in messages. -/
def title (f : Flag) : String := "/".intercalate f.names

/-- What stands after a flag where it takes a value. -/
def valueText : Flag → String
  | switch .. => ""
  | setting _ value _ => " " ++ value

/-- The flag that every command has. -/
def showHelp : Flag := switch (some 'h') "help" "show this help message and exit"

end Flag

/-- The arguments of a command that are no flags: exactly one, at most one, or the name of a
further command and all that is meant for it. -/
inductive Positional
  | one (name help : String)
  | atMostOne (name help : String)
  | command (choices : List (String × String))
deriving DecidableEq, Repr

namespace Positional

/-- The name of the arguments in messages. -/
def name : Positional → String
  | one name _ => name
  | atMostOne name _ => name
  | command _ => "command"

/-- Whether the arguments must not be left out. -/
def isRequired : Positional → Bool
  | atMostOne .. => false
  | _ => true

/-- The names of the further commands in braces. -/
def choiceText (choices : List (String × String)) : String :=
  "\x7b" ++ ",".intercalate (choices.map (·.1)) ++ "\x7d"

/-- The arguments in a usage line. -/
def usage : Positional → String
  | one name _ => name
  | atMostOne name _ => "[" ++ name ++ "]"
  | command choices => choiceText choices ++ " ..."

end Positional

/-- A command. -/
structure Command where
  name : String
  about : Option String := none
  flags : List Flag := []
  positional : Positional
deriving DecidableEq, Repr

/-- The flags of a command. -/
def Command.allFlags (c : Command) : List Flag := .showHelp :: c.flags

end BinaryPoint.CommandLine
