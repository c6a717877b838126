import BinaryPoint.Session.Basic

/-! # Steps of a session

Each step performs one action and may keep its outcome in a register. The format that a
step names is settled before its operands, and its operands before it starts.
-/

namespace BinaryPoint.Session

/-- A format as a step names it: by its key, by its parts, or something else. -/
inductive FormatRef
  | key (s : String)
  | parts (signed integerBits fractionalBits : Datum)
  | other (v : Datum)

/-- The descriptor that a step means. -/
def FormatRef.descriptor : FormatRef → Except Fault Descriptor
  | key s => (Format.parse s).map .format
  | parts s i f => (Format.ofParts s i f).map .format
  | other v => .ok (.other v)

/-- An operand as a step names it: by its register, or written out. -/
inductive Ref
  | register (name : String)
  | value (v : Datum)

/-- The operand that a step means. -/
def Ref.operand : Ref → Run Operand
  | register name => operandOf name
  | value v => newPlain v

/-- The operators of two operands that make a new one. -/
inductive Arithmetic
  | add
  | sub
  | mul

/-- What is asked about two operands. -/
inductive Question
  | equal
  | notEqual
  | order (c : Comparison)
  | sameType
  | sameObject
  | sameHash

/-- What is done with one operand. -/
inductive Unary
  | unbind
  | neg
  | pos
  | abs
  | float
  | repr
  | copy
  | rebuild
  | get

/-- What a step does. -/
inductive Action
  | bind (format : FormatRef) (value : Ref)
  | bindAll (format : FormatRef) (values : List Ref)
  | reformat (value : Ref) (format : FormatRef)
  | fromRaw (format : FormatRef) (raw : Int)
  | combine (op : Arithmetic) (a b : Ref)
  | ask (q : Question) (a b : Ref)
  | apply (op : Unary) (a : Ref)
  | sort (values : List Ref)
  | typeFor (format : FormatRef)
  | construct (format : FormatRef) (args : List Ref)
  | constructBase
  | setAttribute (a : Ref) (name : String)
  | showCache
  | sequence (items : List Ref)
  | mapping (items : List (Int × Ref))
  | floats (inner : String) (format : FormatRef)
  | constant (source name : String)
  | read (adapter : String) (index : Int)
  | write (adapter : String) (index : Int) (value : Ref)
  | contents (store : String)

/-- A step: the binder it works with, its action, and the register for its outcome. -/
structure Step where
  binder : String := usualBinder
  action : Action
  target : String := ""

/-- What comes of a step. -/
inductive Outcome
  | operand (o : Operand)
  | valueType (t : ValueType)
  | cache (c : Cache ValueType) (limit : Datum)
  | contents (entries : List (Int × Operand))
  | stored

/-! ## Performing -/

/-- Gives the outcome of an operator its serial number. -/
def settle : Operand.Outcome → Run Operand
  | .fixed v => newFixed v
  | .plain v => newPlain v
  | .row items => newRow items
  | .same o => return o

/-- A new truth value. -/
def truth (x : Except Fault Bool) : Run Operand := do newPlain (.bool (← .of x))

/-- An operator on two operands. -/
def combine (op : Arithmetic) (a b : Operand) : Run Operand := do
  settle (← .of (match op with
    | .add => a.add b
    | .sub => a.sub b
    | .mul => a.mul b))

/-- The answer to a question about two operands. -/
def ask (q : Question) (a b : Operand) : Run Operand :=
  truth <| match q with
  | .equal => .ok (a.eq b)
  | .notEqual => .ok !(a.eq b)
  | .order c => a.compare c b
  | .sameType => .ok (a.sameType b)
  | .sameObject => .ok (a.sameObject b)
  | .sameHash => a.sameHash b

/-- A sign operator: what it does to values and to untyped numbers. -/
def signed (symbol : String) (onFixed : Fixed → Except Fault Fixed)
    (onPlain : Datum → Except Fault Datum) : Operand → Run Operand
  | .fixed v _ => do newFixed (← .of (onFixed v))
  | .plain v _ => do newPlain (← .of (onPlain v))
  | o => .of (refuse (.signOperand symbol o.typeName))

/-- What is done with one operand. Values cannot change, so their copies are themselves. -/
def applyUnary (op : Unary) (o : Operand) : Run Operand :=
  match op, o with
  | .get, o => return o
  | .unbind, o => do newPlain (.real (Binder.unbind (← .of o.typed)))
  | .neg, o => signed "unary -" Fixed.neg Datum.neg o
  | .pos, .fixed .. | .pos, .plain (.int _) _ | .pos, .plain (.real _) _ => return o
  | .pos, o => signed "unary +" .ok Datum.pos o
  | .abs, .fixed v _ => if 0 ≤ v.raw then return o else signed "abs()" Fixed.abs Datum.abs o
  | .abs, .plain (.int n) _ => if 0 ≤ n then return o else newPlain (.int (-n))
  | .abs, o => signed "abs()" Fixed.abs Datum.abs o
  | .float, .plain (.real _) _ => return o
  | .float, o => do newPlain (.real (← .of o.toReal))
  | .repr, o => do newPlain (.text (← .of o.text))
  | .copy, .plain (.list xs) _ => newPlain (.list xs)
  | .copy, .plain (.map xs) _ => newPlain (.map xs)
  | .copy, o => return o
  | .rebuild, o => Session.rebuild o

/-- Performs an action with a binder. -/
def perform (binder target : String) : Action → Run Outcome
  | .bind f v => do
    let d ← .of f.descriptor
    return .operand (← bindOperand binder d (← v.operand))
  | .bindAll f vs => do
    let d ← .of f.descriptor
    let os ← vs.mapM Ref.operand
    return .operand (← newRow (← os.mapM (bindOperand binder d)))
  | .reformat v f => do
    let d ← .of f.descriptor
    let v ← .of (← v.operand).typed
    return .operand (← newFixed (← withBinder binder fun b => b.reformat v d))
  | .fromRaw f raw => do
    let d ← .of f.descriptor
    let t ← withBinder binder fun b => b.typeFor d
    return .operand (← newFixed (← .of (Fixed.ofRaw t raw)))
  | .combine op a b => do
    let a ← a.operand
    return .operand (← combine op a (← b.operand))
  | .ask q a b => do
    let a ← a.operand
    return .operand (← ask q a (← b.operand))
  | .apply op a => do return .operand (← applyUnary op (← a.operand))
  | .sort values => do
    let os ← values.mapM Ref.operand
    return .operand (← newRow (← .of (Operand.sort os)))
  | .typeFor f => do
    let d ← .of f.descriptor
    return .valueType (← withBinder binder fun b => b.typeFor d)
  | .construct f args => do
    let d ← .of f.descriptor
    let _ ← args.mapM Ref.operand
    let t ← withBinder binder fun b => b.typeFor d
    .of (refuse (.directConstruction t.name))
  | .constructBase => .of (refuse (.directConstruction "FixedValue"))
  | .setAttribute a name => do
    match ← a.operand with
    | .fixed v _ => .of (refuse (.immutable v.type.name))
    | o => .of (refuse (.noAttribute o.typeName name))
  | .showCache => do
    let b ← binderOf binder
    return .cache (((← get).caches[b.origin]?).getD {}) b.limit
  | .sequence items => do
    addStore target (.sequence (← items.mapM Ref.operand))
    return .stored
  | .mapping items => do
    let entries ← items.mapM fun e => do return (e.1, ← e.2.operand)
    addStore target (.ofEntries entries)
    return .stored
  | .floats inner f => do
    let d ← .of f.descriptor
    let a ← adapterOf inner
    let _ ← binderOf binder
    fill target (.adapter (.floats a binder d))
    return .stored
  | .constant source name => do
    let built ← withBinder processBinder fun b =>
      Program.compile .standard b source "<string>"
    let c ← .of (built.graph.get name)
    let own ← c.values.mapM newFixed
    addStore target (.slots c.name c.format own own)
    return .stored
  | .read adapter index => do
    return .operand (← readAt (← adapterOf adapter) index)
  | .write adapter index v => do
    let a ← adapterOf adapter
    writeAt a index (← v.operand)
    return .operand (← newPlain .null)
  | .contents store => do
    match ← adapterOf store with
    | .store handle => return .contents (← storeOf handle).contents
    | .floats .. => .of (refuse (.emptyRegister store))

/-- Performs a step and keeps its outcome if it is an operand. -/
def Step.run (s : Step) : Run Outcome := do
  let outcome ← perform s.binder s.target s.action
  if let .operand o := outcome then
    if s.target ≠ "" then fill s.target (.operand o)
  return outcome

/-- Runs steps one after the other; a step that fails does not stop the next one. -/
def runAll (steps : List Step) (s : State) : List (Except Fault Outcome) :=
  go steps s
where
  /-- The outcomes of the remaining steps. -/
  go : List Step → State → List (Except Fault Outcome)
    | [], _ => []
    | step :: others, s =>
      let (outcome, s) := step.run.run s
      outcome :: go others s

end BinaryPoint.Session
