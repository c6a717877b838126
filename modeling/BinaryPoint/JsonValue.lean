import BinaryPoint.Fault

/-! # JSON output

Values in JSON, written over several lines with two more spaces of indentation at each
level. Everything but printable ASCII is escaped.
-/

namespace BinaryPoint

/-- A value in JSON; the entries of an object keep their order. -/
inductive JsonValue
  | null
  | bool (b : Bool)
  | int (n : Int)
  | real (x : Binary64)
  | text (s : String)
  | list (items : List JsonValue)
  | object (entries : List (String × JsonValue))

namespace JsonValue

/-- The escape of a 16-bit unit. -/
def unitEscape (n : Nat) : List Char := '\\' :: 'u' :: Text.hexDigits 4 n

/-- A character inside a quoted text; one beyond 16 bits becomes a pair of surrogates. -/
def escapeChar (c : Char) : List Char :=
  match c with
  | '"' => ['\\', '"']
  | '\\' => ['\\', '\\']
  | '\n' => ['\\', 'n']
  | '\r' => ['\\', 'r']
  | '\t' => ['\\', 't']
  | '\x08' => ['\\', 'b']
  | '\x0c' => ['\\', 'f']
  | c =>
    let n := c.toNat
    if 32 ≤ n && n ≤ 126 then [c]
    else if n < 0x10000 then unitEscape n
    else unitEscape (0xd800 + (n - 0x10000) / 0x400) ++ unitEscape (0xdc00 + (n - 0x10000) % 0x400)

/-- A text between quotation marks. -/
def quoted (s : String) : String := String.ofList ('"' :: s.toList.flatMap escapeChar ++ ['"'])

/-- A double; what is not finite has a name. -/
def realText : Binary64 → String
  | .nan => "NaN"
  | .inf negative => if negative then "-Infinity" else "Infinity"
  | x => x.text

/-- The parts of a list or object between its brackets, each on a line. -/
def bracketed (opening closing : String) (depth : Nat) (parts : List String) : String :=
  let lineAt (depth : Nat) := "\n" ++ String.ofList (List.replicate (2 * depth) ' ')
  if parts.isEmpty then opening ++ closing
  else opening ++ lineAt (depth + 1) ++ ("," ++ lineAt (depth + 1)).intercalate parts
    ++ lineAt depth ++ closing

mutual
/-- The text of a value that stands at some depth. -/
def textAt (depth : Nat) : JsonValue → Except Fault String
  | null => .ok "null"
  | bool b => .ok (if b then "true" else "false")
  | int n => integerText n
  | real x => .ok (realText x)
  | text s => .ok (quoted s)
  | list items => do .ok (bracketed "[" "]" depth (← itemsAt (depth + 1) items))
  | object entries => do
    .ok (bracketed "\x7b" "\x7d" depth (← entriesAt (depth + 1) entries))

/-- The texts of the items of a list. -/
def itemsAt (depth : Nat) : List JsonValue → Except Fault (List String)
  | [] => .ok []
  | v :: vs => do
    let first ← textAt depth v
    .ok (first :: (← itemsAt depth vs))

/-- The texts of the entries of an object. -/
def entriesAt (depth : Nat) : List (String × JsonValue) → Except Fault (List String)
  | [] => .ok []
  | (key, v) :: es => do
    let first ← textAt depth v
    .ok ((quoted key ++ ": " ++ first) :: (← entriesAt depth es))
end

/-- The text of a value. -/
def render (v : JsonValue) : Except Fault String := v.textAt 0

end JsonValue

end BinaryPoint
