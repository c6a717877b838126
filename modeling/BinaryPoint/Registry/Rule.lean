import BinaryPoint.Datum.Number

/-! # Rules for documents

A rule looks at a value and lists what is wrong with it, each problem with its path from
the root of the document. Rules are put together; one that fails hides no other.
-/

namespace BinaryPoint

/-- Something wrong with a document, and where. -/
structure Problem where
  path : List String
  text : String
deriving DecidableEq, Repr

/-- A rule for values. It has no answer only if a problem cannot be worded. -/
abbrev Rule := Datum → Except Fault (List Problem)

/-- A pattern for texts: how it is written, and what it matches. -/
structure Pattern where
  source : String
  accepts : List Char → Bool

namespace Pattern

/-- Whether a text matches, one line break at its end left aside. -/
def matchesText (p : Pattern) (s : String) : Bool :=
  p.accepts s.toList || (s.toList.getLast? = some '\n' && p.accepts s.toList.dropLast)

/-- Two rows of digits with a point between them. -/
def version : Pattern where
  source := "^[0-9]+\\.[0-9]+$"
  accepts := fun cs =>
    let whole := cs.takeWhile Char.isDigit
    match cs.dropWhile Char.isDigit with
    | '.' :: minor => !whole.isEmpty && !minor.isEmpty && minor.all Char.isDigit
    | _ => false

/-- A letter or `_`, then letters, digits and `_`. -/
def name : Pattern where
  source := "^[A-Za-z_][A-Za-z0-9_]*$"
  accepts := fun
    | c :: cs => (c.isAlpha || c = '_') && cs.all fun c => c.isAlphanum || c = '_'
    | [] => false

end Pattern

/-- The types that rules know. An integer may be a double without a fraction, and a truth
value is no number. -/
inductive DataType
  | object
  | string
  | integer
  | boolean
deriving DecidableEq, Repr

namespace DataType

/-- The name of a type. -/
def text : DataType → String
  | object => "object"
  | string => "string"
  | integer => "integer"
  | boolean => "boolean"

/-- Whether a value is of a type. -/
def admits : DataType → Datum → Bool
  | object, .map _ => true
  | string, .text _ => true
  | boolean, .bool _ => true
  | integer, .int _ => true
  | integer, .real x => x.isFinite && x.toRat.den = 1
  | _, _ => false

end DataType

namespace Rule

/-- The shown form of a value, refused if it is too long. -/
def shown (v : Datum) : Except Fault String :=
  match v.shown? with
  | some s => .ok s
  | none => .error .integerTooLong

/-- The form of a value without quotes, refused if it is too long. -/
def plain (v : Datum) : Except Fault String :=
  match v.plain? with
  | some s => .ok s
  | none => .error .integerTooLong

/-- A problem with the value itself. -/
def here (text : String) : List Problem := [⟨[], text⟩]

/-- Problems of a part, seen from the whole. -/
def under (key : String) (ps : List Problem) : List Problem :=
  ps.map fun p => { p with path := key :: p.path }

/-- All of some rules, one after the other. -/
def all (rules : List Rule) : Rule := fun v => do
  .ok (← rules.mapM fun r => r v).flatten

/-- The value is of a type. -/
def ofType (t : DataType) : Rule := fun v =>
  if t.admits v then .ok []
  else do .ok (here s!"{← shown v} is not of type {Text.quoted t.text}")

/-- A mapping has certain entries. -/
def required (keys : List String) : Rule := fun
  | .map es => .ok <| keys.flatMap fun k =>
    if (Datum.lookup (.text k) es).isSome then []
    else here s!"{Text.quoted k} is a required property"
  | _ => .ok []

/-- The keys of a mapping that are not among the given ones. -/
def extras (keys : List String) (es : List (Datum × Datum)) : List (Datum × Datum) :=
  es.filter fun e => !keys.any fun k => e.1.eq (.text k)

/-- A mapping has no other entries; those it has are listed in the order of their names. -/
def only (keys : List String) : Rule := fun
  | .map es =>
    match extras keys es with
    | [] => .ok []
    | found => do
      let names ← found.mapM fun e => do return (← plain e.1, ← shown e.1)
      let sorted := (names.mergeSort fun a b => !(b.1 < a.1 : Bool)).map (·.2)
      let verb := if sorted.length = 1 then "was" else "were"
      let list := ", ".intercalate sorted
      .ok (here s!"Additional properties are not allowed ({list} {verb} unexpected)")
  | _ => .ok []

/-- A rule for one entry of a mapping, if it is there. -/
def entry (key : String) (r : Rule) : Rule := fun
  | .map es =>
    match Datum.lookup (.text key) es with
    | some v => do .ok (under key (← r v))
    | none => .ok []
  | _ => .ok []

/-- A rule for every value of a mapping. -/
def values (r : Rule) : Rule := fun
  | .map es => do
    .ok (← es.mapM fun e => do
      match ← r e.2 with
      | [] => return []
      | found => return under (← plain e.1) found).flatten
  | _ => .ok []

/-- A rule for every key of a mapping. -/
def keys (r : Rule) : Rule := fun
  | .map es => do .ok (← es.mapM fun e => r e.1).flatten
  | _ => .ok []

/-- A text matches a pattern. -/
def matching (p : Pattern) : Rule := fun
  | .text s =>
    .ok <| if p.matchesText s then []
      else here s!"{Text.quoted s} does not match {Text.quoted p.source}"
  | _ => .ok []

/-- The place of a number relative to a bound; truth values are no numbers here. -/
def compareTo (bound : Int) : Datum → Option Ordering
  | .int n => some (compare n bound)
  | .real x => Datum.Number.compare? (.real x) (.int bound)
  | _ => none

/-- A number is not below a bound. -/
def atLeast (bound : Int) : Rule := fun v =>
  if compareTo bound v = some .lt then do
    .ok (here s!"{← shown v} is less than the minimum of {bound}")
  else .ok []

/-- A number is not above a bound. -/
def atMost (bound : Int) : Rule := fun v =>
  if compareTo bound v = some .gt then do
    .ok (here s!"{← shown v} is greater than the maximum of {bound}")
  else .ok []

end Rule

namespace Problem

/-- Whether a path comes before another: at the first key that differs, or as a beginning. -/
def pathBefore : List String → List String → Bool
  | [], [] => false
  | [], _ :: _ => true
  | _ :: _, [] => false
  | a :: as, b :: bs => if a = b then pathBefore as bs else a < b

/-- Problems in the order of their paths; those of one path stay in their order. -/
def sorted (ps : List Problem) : List Problem :=
  ps.mergeSort fun p q => !pathBefore q.path p.path

/-- A problem on one line. -/
def line (p : Problem) : String :=
  if p.path.isEmpty then p.text else " -> ".intercalate p.path ++ ": " ++ p.text

end Problem

end BinaryPoint
