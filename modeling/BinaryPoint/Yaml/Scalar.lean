import BinaryPoint.Yaml.Place

/-! # Scalars in a YAML text

Plain scalars run until something that cannot be part of them; quoted ones run to the
closing quote. Both may go over several lines: a single line end inside one stands for
a space, and each further one for itself.
-/

namespace BinaryPoint.Yaml

/-! ## Folding of lines -/

/-- What a line end followed by more of them stands for. -/
def fold (first : Char) (others : List Char) : List Char :=
  if first ≠ '\n' then first :: others else if others.isEmpty then [' '] else others

/-! ## Plain scalars -/

/-- Whether a colon before this character ends a plain scalar. -/
def endsKey (flow : Bool) (next : Option Char) : Bool :=
  isGap next || (flow && next.any (",[]\x7b\x7d".toList.contains ·))

/-- The characters of a plain scalar up to a gap or to something that ends it. Inside
brackets there are more marks that do. -/
def plainRun (flow : Bool) : List Char → List Char
  | [] => []
  | c :: cs =>
    if isGap (some c) || (c = ':' && endsKey flow cs.head?)
      || (flow && ",?[]\x7b\x7d".toList.contains c) then []
    else c :: plainRun flow cs

/-- Line ends between two parts of a plain scalar, with the spaces around them, as far as
no line between documents comes up; that one leaves nothing. -/
def plainBreaks : Nat → Place → List Char → Option (List Char) × Place
  | 0, p, found => (some found, p)
  | limit + 1, p, found =>
    match p.breakHere? with
    | some b => if p.step.atMarker then (none, p.step) else plainBreaks limit p.step (found ++ [b])
    | none => if p.peek = some ' ' then plainBreaks limit p.step found else (some found, p)

/-- What stands between two parts of a plain scalar: the text it stands for, if the scalar
can go on, the place after it, and whether it ended a line. -/
def plainGap (p : Place) : Option (List Char) × Place × Bool :=
  let q := p.skipWhile (· = ' ')
  match q.breakHere? with
  | none =>
    let spaces := List.replicate (q.column - p.column) ' '
    (if spaces.isEmpty then none else some spaces, q, false)
  | some b =>
    if q.step.atMarker then (none, q.step, true)
    else
      let (others, r) := plainBreaks q.rest.length q.step []
      (others.map (fold b), r, true)

/-- A scalar that was read. -/
structure Scalar where
  text : List Char
  place : Place
  endedLine : Bool

/-- Goes on with a plain scalar after its text so far and a gap. Outside brackets its lines
have to be indented at least as far as `indent`. -/
def plainFrom (flow : Bool) (indent : Int) : Nat → Place → List Char → List Char → Bool → Scalar
  | 0, p, text, _, ended => ⟨text, p, ended⟩
  | limit + 1, p, text, gap, ended =>
    let run := plainRun flow p.rest
    if p.peek = some '#' || run.isEmpty then ⟨text, p, ended⟩
    else
      let text := text ++ gap ++ run
      match plainGap (p.advance run.length) with
      | (none, q, ended) => ⟨text, q, ended⟩
      | (some gap, q, ended) =>
        if q.peek = some '#' || (!flow && (q.column : Int) < indent) then ⟨text, q, ended⟩
        else plainFrom flow indent limit q text gap ended

/-- The plain scalar at a place. -/
def plainScalar (flow : Bool) (indent : Int) (p : Place) : Scalar :=
  plainFrom flow indent (p.rest.length + 1) p [] [] false

/-! ## Quoted scalars -/

/-- The character that a one-letter escape stands for. -/
def escaped? : Char → Option Char
  | '0' => some '\x00' | 'a' => some '\x07' | 'b' => some '\x08' | 't' => some '\t'
  | '\t' => some '\t' | 'n' => some '\n' | 'v' => some '\x0b' | 'f' => some '\x0c'
  | 'r' => some '\r' | 'e' => some '\x1b' | ' ' => some ' ' | '"' => some '"'
  | '\\' => some '\\' | '/' => some '/' | 'N' => some '\x85' | '_' => some '\xa0'
  | 'L' => some '\u2028' | 'P' => some '\u2029'
  | _ => none

/-- The number of digits of a numeric escape. -/
def escapeDigits? : Char → Option Nat
  | 'x' => some 2 | 'u' => some 4 | 'U' => some 8
  | _ => none

/-- The value of a hexadecimal digit. -/
def hexValue? (c : Char) : Option Nat :=
  if c.isDigit then some (c.toNat - 48)
  else if 'a' ≤ c && c ≤ 'f' then some (c.toNat - 87)
  else if 'A' ≤ c && c ≤ 'F' then some (c.toNat - 55)
  else none

/-- The number that a row of digits denotes in a base. -/
def inBase (base : Nat) (ds : List Nat) : Nat := ds.foldl (fun n d => base * n + d) 0

/-- The character of a numeric escape with so many digits. -/
def numericEscape? (digits : Nat) (cs : List Char) : Option Char := do
  let ds ← (cs.take digits).mapM hexValue?
  let code := inBase 16 ds
  if ds.length = digits && code.isValidChar then some (Char.ofNat code) else none

/-- Line ends inside a quoted scalar, with the blanks around them. A line between documents
must not come up. -/
def quotedBreaks : Nat → Place → List Char → Option (List Char × Place)
  | 0, p, found => some (found, p)
  | limit + 1, p, found =>
    if p.atMarker then none
    else
      let q := p.skipWhile fun c => c = ' ' || c = '\t'
      match q.breakHere? with
      | some b => quotedBreaks limit q.step (found ++ [b])
      | none => some (found, q)

/-- Goes on with a quoted scalar after its text so far, to the closing quote. -/
def quotedFrom (double : Bool) : Nat → Place → List Char → Option Scalar
  | 0, _, _ => none
  | limit + 1, p, text =>
    match p.rest with
    | [] => none
    | c :: cs =>
      if c = (if double then '"' else '\'') then
        if !double && cs.head? = some '\'' then quotedFrom double limit (p.advance 2) (text ++ [c])
        else some ⟨text, p.step, false⟩
      else if double && c = '\\' then
        match cs with
        | [] => none
        | e :: ds =>
          if isBreak e then do
            let (breaks, q) ← quotedBreaks p.rest.length (p.advance 2) []
            quotedFrom double limit q (text ++ breaks)
          else
            match escaped? e, escapeDigits? e with
            | some x, _ => quotedFrom double limit (p.advance 2) (text ++ [x])
            | none, some n => do
              let x ← numericEscape? n ds
              quotedFrom double limit (p.advance (2 + n)) (text ++ [x])
            | none, none => none
      else if isGap (some c) then
        let q := p.skipWhile fun c => c = ' ' || c = '\t'
        match q.breakHere? with
        | some b => do
          let (others, r) ← quotedBreaks p.rest.length q.step []
          quotedFrom double limit r (text ++ fold b others)
        | none => quotedFrom double limit q (text ++ p.rest.take (q.column - p.column))
      else quotedFrom double limit p.step (text ++ [c])

/-- The quoted scalar at a place; there is none if it has no proper end. -/
def quotedScalar? (double : Bool) (p : Place) : Option Scalar :=
  quotedFrom double (p.rest.length + 1) p.step []

end BinaryPoint.Yaml
