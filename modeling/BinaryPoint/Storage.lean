import BinaryPoint.Operand.Basic

/-! # Stores

A store holds operands by index: a sequence of fixed length, a mapping that grows, or
the slots of a constant, which take values of the constant's format only. Indexes below
zero count from the end of a sequence.
-/

namespace BinaryPoint

/-- The position that an index means in a row of the given length. -/
def slot? (length : Nat) (index : Int) : Option Nat :=
  let i := if index < 0 then index + length else index
  if 0 ≤ i && i < length then some i.toNat else none

/-- A store of operands. The slots of a constant start out with its own values, which stay
as they are whatever is put into the slots. -/
inductive Store
  | sequence (items : List Operand)
  | mapping (entries : List (Int × Operand))
  | slots (name : String) (format : Format) (own items : List Operand)

namespace Store

/-- The operand in a row at an index. -/
def readItem (items : List Operand) (index : Int) : Except Fault Operand :=
  match (slot? items.length index).bind (items[·]?) with
  | some o => .ok o
  | none => refuse (.readIndex index)

/-- A row with another operand at an index, which must be there. -/
def writeItem (items : List Operand) (index : Int) (o : Operand) :
    Except Fault (List Operand) :=
  match slot? items.length index with
  | some i => .ok (items.set i o)
  | none => refuse (.writeIndex index)

/-- Entries with another operand at a key; a new key comes last. -/
def writeEntry (key : Int) (o : Operand) : List (Int × Operand) → List (Int × Operand)
  | [] => [(key, o)]
  | e :: es => if e.1 = key then (key, o) :: es else e :: writeEntry key o es

/-- The operand at an index. -/
def read (s : Store) (index : Int) : Except Fault Operand :=
  match s with
  | sequence items | slots _ _ _ items => readItem items index
  | mapping entries =>
    match entries.find? (·.1 = index) with
    | some e => .ok e.2
    | none => refuse (.noKey (.int index))

/-- The store with another operand at an index. -/
def write (s : Store) (index : Int) (o : Operand) : Except Fault Store :=
  match s with
  | sequence items => (writeItem items index o).map .sequence
  | mapping entries => .ok (.mapping (writeEntry index o entries))
  | slots name format own items => do
    let v ← o.typed
    if v.format ≠ format then refuse (.slotFormat name format v.format)
    .ok (.slots name format own (← writeItem items index o))

/-- A mapping with the given entries, of which a later one replaces an earlier one. -/
def ofEntries (entries : List (Int × Operand)) : Store :=
  .mapping (entries.foldl (fun es e => writeEntry e.1 e.2 es) [])

/-- Everything in a store, in order; for a constant, its own values. -/
def contents : Store → List (Int × Operand)
  | sequence items | slots _ _ items _ => items.zipIdx.map fun e => (e.2, e.1)
  | mapping entries => entries

end Store

end BinaryPoint
