import BinaryPoint.Graph.Build
import BinaryPoint.Operand.Operators
import BinaryPoint.Storage

/-! # State of a session

A session has binders, some of which share a cache, named registers for what its steps
made, and stores behind adapters. A step that fails leaves the registers and stores as
they were; a cache keeps what it learnt.
-/

namespace BinaryPoint.Session

/-- A way into a store: as it is, or as typed values over doubles. -/
inductive Adapter
  | store (handle : Nat)
  | floats (inner : Adapter) (binder : String) (descriptor : Descriptor)

/-- What a register holds. -/
inductive Register
  | operand (o : Operand)
  | adapter (a : Adapter)

/-- Everything that a session knows. -/
structure State where
  caches : List (Cache ValueType)
  binders : List (String × Binder)
  stores : List Store := []
  registers : List (String × Register) := []
  serial : Nat := 0

/-- A computation in a session. -/
abbrev Run (α : Type) := ExceptT Fault (StateM State) α

/-- A computation that does not touch the session. -/
def Run.of {α : Type} (x : Except Fault α) : Run α := .mk (pure x)

/-! ## Setting up -/

/-- How a binder is set up: its width limit, and the name of the cache that it shares. -/
structure Setup where
  name : String
  limit : Datum := .int Binder.defaultLimit
  cache : Option String := none

/-- The binder that the whole process shares. -/
def processBinder : String := "default"

/-- The binder of steps that name none. -/
def usualBinder : String := "b"

/-- Caches are numbered in the order in which binders ask for them. -/
def numberCaches (seen : List (Option String)) : List Setup → List (String × Binder)
  | [] => []
  | s :: others =>
    match s.cache, seen.idxOf? s.cache with
    | some _, some i => (s.name, ⟨s.limit, i⟩) :: numberCaches seen others
    | _, _ => (s.name, ⟨s.limit, seen.length⟩) :: numberCaches (seen ++ [s.cache]) others

/-- The state in which a session starts. -/
def start (setups : List Setup) : State :=
  let usual : List Setup :=
    if setups.any (·.name = usualBinder) then []
    else [⟨usualBinder, .int Binder.defaultLimit, none⟩]
  let process : Setup := ⟨processBinder, Config.standard.maxTotalBits, none⟩
  let binders := numberCaches [] (process :: usual ++ setups)
  { caches := List.replicate binders.length {}, binders }

/-! ## Primitives -/

/-- A number that no operand has yet. -/
def freshSerial : Run Nat := modifyGet fun s => (s.serial, { s with serial := s.serial + 1 })

/-- A new typed operand. -/
def newFixed (v : Fixed) : Run Operand := do return .fixed v (← freshSerial)

/-- A new untyped operand. -/
def newPlain (v : Datum) : Run Operand := do return .plain v (← freshSerial)

/-- A new row. -/
def newRow (items : List Operand) : Run Operand := do return .row items (← freshSerial)

/-- The binder of a name. -/
def binderOf (name : String) : Run Binder := do
  match (← get).binders.find? (·.1 = name) with
  | some e => return e.2
  | none => .of (refuse (.noKey (.text name)))

/-- Works with a binder on its cache. -/
def withBinder {α : Type} (name : String) (work : Binder → Binder.Binding α) : Run α := do
  let b ← binderOf name
  let s ← get
  let (result, cache) := (work b).runOn ((s.caches[b.origin]?).getD {})
  set { s with caches := s.caches.set b.origin cache }
  .of result

/-- What a register holds. -/
def registerOf (name : String) : Run Register := do
  match (← get).registers.find? (·.1 = name) with
  | some e => return e.2
  | none => .of (refuse (.emptyRegister name))

/-- The operand in a register. -/
def operandOf (name : String) : Run Operand := do
  match ← registerOf name with
  | .operand o => return o
  | .adapter _ => .of (refuse (.emptyRegister name))

/-- The adapter in a register. -/
def adapterOf (name : String) : Run Adapter := do
  match ← registerOf name with
  | .adapter a => return a
  | .operand _ => .of (refuse (.emptyRegister name))

/-- Fills a register. -/
def fill (name : String) (r : Register) : Run Unit :=
  modify fun s => { s with registers := (name, r) :: s.registers.filter (·.1 ≠ name) }

/-- Puts up a store and an adapter for it. -/
def addStore (name : String) (store : Store) : Run Unit := do
  let handle := (← get).stores.length
  modify fun s => { s with stores := s.stores ++ [store] }
  fill name (.adapter (.store handle))

/-- The store of a handle. -/
def storeOf (handle : Nat) : Run Store := do
  return ((← get).stores[handle]?).getD (.sequence [])

/-! ## Binding and storage -/

/-- Rounds an operand to a format. -/
def bindOperand (binder : String) (d : Descriptor) (o : Operand) : Run Operand := do
  newFixed (← withBinder binder fun b => b.bindNumber d o.toReal)

/-- The operand at an index. Doubles become values of the adapter's format. -/
def readAt : Adapter → Int → Run Operand
  | .store handle, index => do .of ((← storeOf handle).read index)
  | .floats inner binder d, index => do bindOperand binder d (← readAt inner index)

/-- Puts an operand at an index. Over doubles only values may be written, and their
doubles are stored. -/
def writeAt : Adapter → Int → Operand → Run Unit
  | .store handle, index, o => do
    let store ← .of ((← storeOf handle).write index o)
    modify fun s => { s with stores := s.stores.set handle store }
  | .floats inner _ _, index, o => do
    let v ← .of o.typed
    writeAt inner index (← newPlain (.real v.toReal))

mutual
/-- An operand written out and read back: values are rebuilt by the binder of the process. -/
def rebuild : Operand → Run Operand
  | .fixed v _ => do
    let (key, raw) := Binder.stored v
    newFixed (← withBinder processBinder fun b => b.restore key raw)
  | .plain v _ => newPlain v
  | .row items _ => do newRow (← rebuildItems items)

/-- The items of a row written out and read back. -/
def rebuildItems : List Operand → Run (List Operand)
  | [] => return []
  | o :: os => do
    let first ← rebuild o
    return first :: (← rebuildItems os)
end

end BinaryPoint.Session
