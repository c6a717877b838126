import BinaryPoint.Yaml.Token

/-! # Trees of a YAML text

The tokens of a document make a tree of scalars, sequences and mappings. What is left
out where a node is wanted is an empty plain scalar.
-/

namespace BinaryPoint.Yaml

/-- A scalar, a sequence or a mapping. -/
inductive Node
  | scalar (text : String) (plain : Bool)
  | sequence (items : List Node)
  | mapping (entries : List (Node × Node))
deriving Inhabited

namespace Node

/-- What stands for something left out. -/
def empty : Node := .scalar "" true

/-- Whether the next token is one of some, or there is none. -/
def stopsAt (stops : List Token) : List Token → Bool
  | [] => true
  | t :: _ => stops.contains t

mutual
/-- The node at the start of some tokens. Inside brackets there are no block collections;
the items of a sequence may stand without a mark of their own indentation only as the
value of a key. -/
def read : Nat → (block bare : Bool) → List Token → Option (Node × List Token)
  | 0, _, _, _ => none
  | limit + 1, block, bare, ts =>
    match ts with
    | .scalar text plain :: ts => some (.scalar text plain, ts)
    | .flowSequence :: ts => (readFlowItems limit true ts).map fun r => (.sequence r.1, r.2)
    | .flowMapping :: ts => (readFlowEntries limit true ts).map fun r => (.mapping r.1, r.2)
    | .item :: _ =>
      if bare then (readItems limit [.item, .key, .value, .blockEnd] ts).map fun r =>
        (.sequence r.1, r.2)
      else none
    | .blockSequence :: ts =>
      if block then
        match readItems limit [.item, .blockEnd] ts with
        | some (items, .blockEnd :: ts) => some (.sequence items, ts)
        | _ => none
      else none
    | .blockMapping :: ts =>
      if block then
        match readEntries limit ts with
        | some (entries, .blockEnd :: ts) => some (.mapping entries, ts)
        | _ => none
      else none
    | _ => none

/-- A node, or nothing where a stop comes next. -/
def readUnless : Nat → (block bare : Bool) → List Token → List Token → Option (Node × List Token)
  | 0, _, _, _, _ => none
  | limit + 1, block, bare, stops, ts =>
    if stopsAt stops ts then some (empty, ts) else read limit block bare ts

/-- Items of a block sequence. -/
def readItems : Nat → List Token → List Token → Option (List Node × List Token)
  | 0, _, _ => none
  | limit + 1, stops, .item :: ts => do
    let (first, ts) ← readUnless limit true false stops ts
    let (others, ts) ← readItems limit stops ts
    some (first :: others, ts)
  | _ + 1, _, ts => some ([], ts)

/-- Entries of a block mapping. -/
def readEntries : Nat → List Token → Option (List (Node × Node) × List Token)
  | 0, _ => none
  | limit + 1, .key :: ts => do
    let stops : List Token := [.key, .value, .blockEnd]
    let (key, ts) ← readUnless limit true true stops ts
    let (value, ts) ← match ts with
      | .value :: ts => readUnless limit true true stops ts
      | ts => some (empty, ts)
    let (others, ts) ← readEntries limit ts
    some ((key, value) :: others, ts)
  | _ + 1, ts => some ([], ts)

/-- Items up to a closing bracket. A key among them is a mapping of its own. -/
def readFlowItems : Nat → (first : Bool) → List Token → Option (List Node × List Token)
  | 0, _, _ => none
  | _ + 1, _, .flowSequenceEnd :: ts => some ([], ts)
  | limit + 1, false, .comma :: .flowSequenceEnd :: ts =>
    readFlowItems limit false (.flowSequenceEnd :: ts)
  | limit + 1, first, ts => do
    let ts ← match first, ts with
      | true, ts => some ts
      | false, .comma :: ts => some ts
      | false, _ => none
    let (item, ts) ← match ts with
      | .key :: ts => do
        let (key, ts) ← readUnless limit false false [.value, .comma, .flowSequenceEnd] ts
        let (value, ts) ← match ts with
          | .value :: ts => readUnless limit false false [.comma, .flowSequenceEnd] ts
          | ts => some (empty, ts)
        some (.mapping [(key, value)], ts)
      | ts => read limit false false ts
    let (others, ts) ← readFlowItems limit false ts
    some (item :: others, ts)

/-- Entries up to a closing brace. A node that is no key is one without a value. -/
def readFlowEntries : Nat → (first : Bool) → List Token → Option (List (Node × Node) × List Token)
  | 0, _, _ => none
  | _ + 1, _, .flowMappingEnd :: ts => some ([], ts)
  | limit + 1, false, .comma :: .flowMappingEnd :: ts =>
    readFlowEntries limit false (.flowMappingEnd :: ts)
  | limit + 1, first, ts => do
    let ts ← match first, ts with
      | true, ts => some ts
      | false, .comma :: ts => some ts
      | false, _ => none
    let (entry, ts) ← match ts with
      | .key :: ts => do
        let (key, ts) ← readUnless limit false false [.value, .comma, .flowMappingEnd] ts
        let (value, ts) ← match ts with
          | .value :: ts => readUnless limit false false [.comma, .flowMappingEnd] ts
          | ts => some (empty, ts)
        some ((key, value), ts)
      | ts => do
        let (key, ts) ← read limit false false ts
        some ((key, empty), ts)
    let (others, ts) ← readFlowEntries limit false ts
    some (entry :: others, ts)
end

/-- The tree of the only document of a text; a text without any document has an empty
one. -/
def ofTokens? (ts : List Token) : Option Node := do
  let limit := 3 * ts.length + 3
  let (node, ts) ← match ts with
    | [] => some (empty, [])
    | .documentStart :: ts => readUnless limit true false [.documentStart, .documentEnd] ts
    | ts => read limit true false ts
  if (ts.dropWhile (· = .documentEnd)).isEmpty then some node else none

end Node

end BinaryPoint.Yaml
