import BinaryPoint.Yaml.Scalar

/-! # Tokens of a YAML text

The text is cut into marks and scalars, and the indentation of block collections into
marks of their own. A scalar turns out to be a key only when a colon follows it on its
line: until then its place among the tokens is remembered, and the mark of a key is put
in there. A text whose indentation or marks do not fit together has no tokens.

Directives, anchors, aliases, tags and block scalars are outside the part of YAML that
registries are written in.
-/

namespace BinaryPoint.Yaml

/-- A mark or a scalar. -/
inductive Token
  | blockSequence
  | blockMapping
  | blockEnd
  | flowSequence
  | flowSequenceEnd
  | flowMapping
  | flowMappingEnd
  | item
  | comma
  | key
  | value
  | scalar (text : String) (plain : Bool)
  | documentStart
  | documentEnd
deriving DecidableEq, Repr

/-- Something that may turn out to be a key: how many tokens came before it, and where it
is. A needed one must turn out to be a key. -/
structure Candidate where
  number : Nat
  needed : Bool
  index : Nat
  line : Nat
  column : Nat

/-- The tokens so far, the newest first, and what the next ones depend on: the depth of
brackets, the columns of open block collections, whether a key may come, and for each
depth what may turn out to be a key. -/
structure Scan where
  place : Place
  found : List Token := []
  depth : Nat := 0
  indent : Int := -1
  indents : List Int := []
  keyAllowed : Bool := true
  candidates : List (Nat × Candidate) := []

namespace Scan

/-- Adds a token. -/
def push (s : Scan) (t : Token) : Scan := { s with found := t :: s.found }

/-- Puts a token where so many come before it. -/
def insertAt (s : Scan) (number : Nat) (t : Token) : Scan :=
  let later := s.found.length - number
  { s with found := s.found.take later ++ t :: s.found.drop later }

/-- Takes characters. -/
def take (s : Scan) (n : Nat) : Scan := { s with place := s.place.advance n }

/-- Says whether a key may come. -/
def allowKey (s : Scan) (allowed : Bool) : Scan := { s with keyAllowed := allowed }

/-- Closes block collections that are indented deeper than a column. -/
def unwindTo (column : Int) : List Int → Scan → Scan
  | [], s => s
  | i :: outer, s =>
    if column < s.indent then
      unwindTo column outer { s.push .blockEnd with indent := i, indents := outer }
    else s

/-- Closes block collections that are indented deeper than a column; brackets leave the
indentation alone. -/
def unwind (s : Scan) (column : Int) : Scan :=
  if 0 < s.depth then s else unwindTo column s.indents s

/-- Opens a block collection if the column is deeper than the current one. -/
def openBlock (s : Scan) (column : Nat) (t : Token) (number : Nat) : Scan :=
  if s.indent < column then
    { s.insertAt number t with indent := column, indents := s.indent :: s.indents }
  else s

/-- What may turn out to be a key at the current depth. -/
def candidate? (s : Scan) : Option Candidate :=
  (s.candidates.find? (·.1 = s.depth)).map (·.2)

/-- Forgets what may turn out to be a key at the current depth; a needed one must not be
forgotten. -/
def dropCandidate (s : Scan) : Option Scan :=
  match s.candidate? with
  | some c =>
    if c.needed then none
    else some { s with candidates := s.candidates.filter (·.1 ≠ s.depth) }
  | none => some s

/-- Remembers that the next token may turn out to be a key. -/
def noteCandidate (s : Scan) : Option Scan :=
  if s.keyAllowed then do
    let needed := s.depth = 0 && s.indent = s.place.column
    let s ← s.dropCandidate
    let p := s.place
    let c : Candidate := ⟨s.found.length, needed, p.index, p.line, p.column⟩
    some { s with candidates := (s.depth, c) :: s.candidates }
  else some s

/-- Whether something can no longer turn out to be a key: it is on another line or too far
away. -/
def isStale (s : Scan) (c : Candidate) : Bool :=
  c.line ≠ s.place.line || 1024 < s.place.index - c.index

/-- Forgets what can no longer turn out to be a key. -/
def dropStale (s : Scan) : Option Scan :=
  if s.candidates.any fun e => s.isStale e.2 && e.2.needed then none
  else some { s with candidates := s.candidates.filter fun e => !s.isStale e.2 }

/-- Skips spaces, comments and line ends. A new line may start with a key, except inside
brackets. -/
def skipGaps : Nat → Scan → Scan
  | 0, s => s
  | limit + 1, s =>
    let p := s.place.skipWhile (· = ' ')
    let p := if p.peek = some '#' then p.skipWhile (!isBreak ·) else p
    match p.breakHere? with
    | some _ => skipGaps limit { s with place := p.step, keyAllowed := s.keyAllowed || s.depth = 0 }
    | none => { s with place := p }

/-! ## One token -/

/-- Whether a plain scalar can start at a place. -/
def startsPlain (s : Scan) (c : Char) : Bool :=
  if "-?:,[]\x7b\x7d#&*!|>'\"%@`".toList.contains c then
    !isGap (s.place.peek 1) && (c = '-' || (s.depth = 0 && (c = '?' || c = ':')))
  else !isGap (some c)

/-- A line between documents. -/
def marker (s : Scan) (t : Token) : Option Scan := do
  some (((← (s.unwind (-1)).dropCandidate).allowKey false).push t |>.take 3)

/-- An opening bracket. -/
def openFlow (s : Scan) (t : Token) : Option Scan := do
  let s ← s.noteCandidate
  some ({ s with depth := s.depth + 1, keyAllowed := true }.push t |>.take 1)

/-- A closing bracket. -/
def closeFlow (s : Scan) (t : Token) : Option Scan := do
  if s.depth = 0 then none
  let s ← s.dropCandidate
  some ({ s with depth := s.depth - 1, keyAllowed := false }.push t |>.take 1)

/-- A comma. -/
def comma (s : Scan) : Option Scan := do
  some (((← s.dropCandidate).allowKey true).push .comma |>.take 1)

/-- The mark of an item of a block sequence. -/
def item (s : Scan) : Option Scan := do
  if 0 < s.depth || !s.keyAllowed then none
  let s := s.openBlock s.place.column .blockSequence s.found.length
  some (((← s.dropCandidate).allowKey true).push .item |>.take 1)

/-- The explicit mark of a key. -/
def explicitKey (s : Scan) : Option Scan := do
  if s.depth = 0 && !s.keyAllowed then none
  let s := if s.depth = 0 then s.openBlock s.place.column .blockMapping s.found.length else s
  some (((← s.dropCandidate).allowKey (s.depth = 0)).push .key |>.take 1)

/-- The mark of a value. What may be a key before it now is one. -/
def value (s : Scan) : Option Scan :=
  match s.candidate? with
  | some c =>
    let s := { s with candidates := s.candidates.filter (·.1 ≠ s.depth) }
    let s := s.insertAt c.number .key
    let s := if s.depth = 0 then s.openBlock c.column .blockMapping c.number else s
    some ((s.allowKey false).push .value |>.take 1)
  | none => do
    if s.depth = 0 && !s.keyAllowed then none
    let s := if s.depth = 0 then s.openBlock s.place.column .blockMapping s.found.length else s
    some (((← s.dropCandidate).allowKey (s.depth = 0)).push .value |>.take 1)

/-- A scalar that was read. -/
def scalar (s : Scan) (plain : Bool) (x : Scalar) : Scan :=
  { s.push (.scalar (String.ofList x.text) plain) with place := x.place, keyAllowed := x.endedLine }

/-- The token that starts with a character. -/
def token (s : Scan) (c : Char) : Option Scan :=
  let p := s.place
  let beforeGap := isGap (p.peek 1)
  if c = '%' && p.column = 0 then none
  else if p.column = 0 && p.isMarker '-' then s.marker .documentStart
  else if p.column = 0 && p.isMarker '.' then s.marker .documentEnd
  else if c = '[' then s.openFlow .flowSequence
  else if c = '\x7b' then s.openFlow .flowMapping
  else if c = ']' then s.closeFlow .flowSequenceEnd
  else if c = '\x7d' then s.closeFlow .flowMappingEnd
  else if c = ',' then s.comma
  else if c = '-' && beforeGap then s.item
  else if c = '?' && (0 < s.depth || beforeGap) then s.explicitKey
  else if c = ':' && (0 < s.depth || beforeGap) then s.value
  else if c = '\'' || c = '"' then do
    let s ← s.noteCandidate
    some (s.scalar false (← quotedScalar? (c = '"') p))
  else if s.startsPlain c then do
    let s ← s.noteCandidate
    some (s.scalar true (plainScalar (0 < s.depth) (s.indent + 1) p))
  else none

/-- All tokens, in at most so many steps. -/
def run : Nat → Scan → Option (List Token)
  | 0, _ => none
  | limit + 1, s => do
    let s := s.skipGaps (s.place.rest.length + 1)
    let s ← s.dropStale
    let s := s.unwind s.place.column
    match s.place.peek with
    | none => some (← (s.unwind (-1)).dropCandidate).found.reverse
    | some c => run limit (← s.token c)

end Scan

/-- The tokens of a text. A byte order mark at its start is skipped. -/
def tokens? (cs : List Char) : Option (List Token) :=
  let p : Place := ⟨cs, 0, 0, 0⟩
  Scan.run (cs.length + 1) { place := if cs.head? = some '\ufeff' then p.step else p }

end BinaryPoint.Yaml
