import BinaryPoint.CommandLine.Command
import BinaryPoint.Text.Quoted

/-! # Arguments of a command

Each argument is first sorted by its look alone: a flag, something that looks like a flag
but is none, or an ordinary argument. After a separator `--` all are ordinary. Then they
are gone through from left to right, and the first that is wrong, or asks for help, ends it.
-/

namespace BinaryPoint.CommandLine

/-- Why the arguments of a command do not lead to a run. -/
inductive Stop
  | help
  | misuse (text : String)
deriving DecidableEq, Repr

/-- What an argument is by its look. Letters of switches may follow each other. -/
inductive Role
  | ordinary
  | separator
  | unknown
  | letters (first : Flag) (rest : List Char)
  | word (flag : Flag) (value : Option String)
deriving DecidableEq, Repr

/-- What the arguments of a command come to: the flags with their values, the ordinary
arguments that it takes, and those that nothing takes. -/
structure Arguments where
  flags : List (Flag × Option String) := []
  operands : List String := []
  unread : List String := []
deriving DecidableEq, Repr

/-! ## Looks -/

/-- Decimal digits of any script. -/
def areDigits (cs : List Char) : Bool := cs.all fun c => (Text.digitValue? c).isSome

/-- Whether the text after a minus sign makes it a negative number, a line break at the end
left aside. -/
def isMagnitude (cs : List Char) : Bool :=
  let cs := if cs.getLast? = some '\n' then cs.dropLast else cs
  let whole := cs.takeWhile fun c => (Text.digitValue? c).isSome
  match cs.drop whole.length with
  | [] => !whole.isEmpty
  | '.' :: fraction => !fraction.isEmpty && areDigits fraction
  | _ => false

/-- The role of an argument that starts like a flag and is none: negative numbers and what
has a space in it are ordinary. -/
def roleOfOther (afterDash : List Char) : Role :=
  if isMagnitude afterDash || afterDash.contains ' ' then .ordinary else .unknown

/-- A word before `=`, and the text after it if there is one. -/
def splitValue (cs : List Char) : String × Option String :=
  let word := cs.takeWhile (· ≠ '=')
  (String.ofList word, (cs.drop word.length).tail?.map String.ofList)

/-- The role of an argument with two dashes. A word may be cut short as long as it fits only
one flag. -/
def roleOfWord (flags : List Flag) (cs : List Char) : Except Stop Role :=
  let (word, value) := splitValue cs
  match flags.find? (·.word = word), flags.filter fun f => word.toList.isPrefixOf f.word.toList with
  | some f, _ => .ok (.word f value)
  | none, [f] => .ok (.word f value)
  | none, [] => .ok (roleOfOther ('-' :: cs))
  | none, fs =>
    let arg := String.ofList ('-' :: '-' :: cs)
    let names := ", ".intercalate (fs.map Flag.long)
    .error (.misuse s!"ambiguous option: {arg} could match {names}")

/-- The flag of a letter. -/
def ofLetter? (flags : List Flag) (c : Char) : Option Flag := flags.find? (·.letter? = some c)

/-- The role of an argument. -/
def role (flags : List Flag) (arg : String) : Except Stop Role :=
  match arg.toList with
  | ['-', '-'] => .ok .separator
  | '-' :: '-' :: cs => roleOfWord flags cs
  | '-' :: c :: cs =>
    match ofLetter? flags c with
    | some f => .ok (.letters f cs)
    | none => .ok (roleOfOther (c :: cs))
  | _ => .ok .ordinary

/-- Arguments with their roles. -/
def withRoles (flags : List Flag) : List String → Except Stop (List (String × Role))
  | [] => .ok []
  | arg :: args => do
    match ← role flags arg with
    | .separator => .ok ((arg, .separator) :: args.map fun a => (a, .ordinary))
    | r => .ok ((arg, r) :: (← withRoles flags args))

/-! ## Flags -/

/-- A switch was given a value. -/
def valueRefused (f : Flag) (value : List Char) : Stop :=
  .misuse s!"argument {f.title}: ignored explicit argument {Text.quoted (String.ofList value)}"

/-- A setting was given no value. -/
def valueMissing (f : Flag) : Stop := .misuse s!"argument {f.title}: expected one argument"

/-- The switches in a row of letters, and the part that has no meaning, with a dash. -/
def readLetters (flags : List Flag) (f : Flag) :
    List Char → Except Stop (List Flag × Option String)
  | [] => .ok ([f], none)
  | '=' :: value => .error (valueRefused f value)
  | '-' :: cs => .error (valueRefused f ('-' :: cs))
  | c :: cs =>
    match ofLetter? flags c with
    | some g => do
      let (others, unread) ← readLetters flags g cs
      .ok (f :: others, unread)
    | none => .ok ([f], some (String.ofList ('-' :: c :: cs)))

/-- Notes a flag; the one for help ends everything. -/
def noteFlag (f : Flag) (value : Option String) (later : Except Stop Arguments) :
    Except Stop Arguments := do
  if f = .showHelp then .error .help
  let found ← later
  .ok { found with flags := (f, value) :: found.flags }

/-- Notes arguments that nothing takes. -/
def noteUnread (args : List String) (later : Except Stop Arguments) : Except Stop Arguments := do
  let found ← later
  .ok { found with unread := args ++ found.unread }

/-! ## From left to right -/

/-- Goes through arguments once the command has its ordinary arguments or while it still
waits for them. -/
def readRoles (c : Command) : (waiting : Bool) → List (String × Role) → Except Stop Arguments
  | _, [] => .ok {}
  | true, (arg, .ordinary) :: (sep, .separator) :: rest =>
    match c.positional with
    | .command _ => .ok { operands := arg :: sep :: rest.map (·.1) }
    | _ => do
      let found ← readRoles c false rest
      .ok { found with operands := arg :: found.operands }
  | true, (arg, .ordinary) :: rest =>
    match c.positional with
    | .command _ => .ok { operands := arg :: rest.map (·.1) }
    | _ => do
      let found ← readRoles c false rest
      .ok { found with operands := arg :: found.operands }
  | true, (sep, .separator) :: (arg, _) :: rest =>
    match c.positional with
    | .command _ => .ok { operands := sep :: arg :: rest.map (·.1) }
    | _ => do
      let found ← readRoles c false rest
      .ok { found with operands := arg :: found.operands }
  | true, [(sep, .separator)] =>
    if c.positional.isRequired then .ok { unread := [sep] } else .ok {}
  | waiting, (_, .letters f cs) :: rest => do
    let (fs, unread) ← readLetters c.allFlags f cs
    fs.foldr (fun f later => noteFlag f none later)
      (noteUnread unread.toList (readRoles c waiting rest))
  | waiting, (_, .word (.setting word value help) none) :: (arg, .ordinary) :: rest =>
    noteFlag (.setting word value help) (some arg) (readRoles c waiting rest)
  | waiting, (_, .word f value) :: rest =>
    match f, value with
    | .setting .., none => .error (valueMissing f)
    | .switch .., some text => .error (valueRefused f text.toList)
    | _, _ => noteFlag f value (readRoles c waiting rest)
  | waiting, (arg, _) :: rest => noteUnread [arg] (readRoles c waiting rest)

/-- Reads the arguments of a command. -/
def Command.read (c : Command) (args : List String) : Except Stop Arguments := do
  let found ← readRoles c true (← withRoles c.allFlags args)
  if c.positional.isRequired && found.operands.isEmpty then
    .error (.misuse s!"the following arguments are required: {c.positional.name}")
  .ok found

end BinaryPoint.CommandLine
