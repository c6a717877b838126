import BinaryPoint.Cache
import BinaryPoint.Format.Checked
import BinaryPoint.Fixed

/-! # Binding real numbers to formats

A binder makes value types up to a width limit, keeps them in a cache, and turns real
numbers into values. Several binders may share a cache: a type that one of them made
is then there for the others.
-/

namespace BinaryPoint

/-- What is handed over where a format is wanted. -/
inductive Descriptor
  | format (f : Format)
  | other (v : Datum)

instance : Coe Format Descriptor := ⟨.format⟩

/-- A maker of value types no wider than `limit`, into the cache known as `origin`. -/
structure Binder where
  limit : Datum
  origin : Nat := 0

namespace Binder

/-- The width limit of a binder unless told otherwise. -/
def defaultLimit : Nat := 1024

/-- A computation on the cache of a binder. What the cache has learnt stays there even
if the computation fails later. -/
abbrev Binding (α : Type) := ExceptT Fault (StateM (Cache ValueType)) α

/-- A computation that does not touch the cache. -/
def Binding.of {α : Type} (x : Except Fault α) : Binding α := .mk (pure x)

/-- What a computation comes to from a cache, and what it makes of the cache. -/
def Binding.runOn {α : Type} (x : Binding α) (cache : Cache ValueType) :
    Except Fault α × Cache ValueType :=
  x.run cache

/-- The outcome of a computation, which may be a failure, as a value. -/
def Binding.outcome {α : Type} (x : Binding α) : Binding (Except Fault α) := ExceptT.lift x.run

/-- Whether a width is beyond a limit of unknown type. -/
def exceeds (width : Nat) (limit : Datum) : Except Fault Bool :=
  match limit.number? with
  | some n => .ok (Datum.Number.compare? (.int width) n = some .gt)
  | none => refuse (.unordered ">" "int" limit.typeName)

/-- Makes the value type of a format, which goes by a name. -/
def synthesize (b : Binder) (f : Format) : Except Fault ValueType := do
  if ← exceeds f.width b.limit then refuse (.tooWide f b.limit)
  if h : f.integerBits < 1024 then
    let _ ← f.typeNameText
    .ok ⟨f, b.origin, h⟩
  else refuse (.beyondDoubles f)

/-- The value type of a format, from the cache if it is there. -/
def typeForFormat (b : Binder) (f : Format) : Binding ValueType := fun cache =>
  match cache.getOrCreate f fun f => (b.synthesize f).map some with
  | (.ok (some t), cache) => (.ok t, cache)
  | (.ok none, cache) => (.error (.notFormat .null), cache)
  | (.error e, cache) => (.error e, cache)

/-- The value type of a descriptor, if that is a format. -/
def typeFor (b : Binder) : Descriptor → Binding ValueType
  | .format f => b.typeForFormat f
  | .other v => .of (refuse (.notFormat v))

/-- Rounds a double to a value type, half up. -/
def roundTo (t : ValueType) (x : Binary64) : Except Fault Fixed :=
  if x.isFinite then Fixed.ofRaw t (x.scaled t.format.fractionalBits)
  else refuse (.valueNotFinite x t.format)

/-- Rounds a number to a format. The number may not be one after all, which matters only
once the format has its type. -/
def bindNumber (b : Binder) (d : Descriptor) (x : Except Fault Binary64) : Binding Fixed := do
  let t ← b.typeFor d
  .of (x.bind (roundTo t))

/-- Rounds a double to a format. -/
def bind (b : Binder) (d : Descriptor) (x : Binary64) : Binding Fixed := b.bindNumber d (.ok x)

/-- Rounds numbers to a format, one after the other. -/
def bindAll (b : Binder) (d : Descriptor) (xs : List Binary64) : Binding (List Fixed) :=
  xs.mapM (b.bind d)

/-- Rounds a value to another format: exactly where that has as many fractional bits, and
else half up. -/
def reformat (b : Binder) (v : Fixed) (d : Descriptor) : Binding Fixed := do
  let t ← b.typeFor d
  let shift := (v.format.fractionalBits : Int) - t.format.fractionalBits
  .of (Fixed.ofRaw t (shiftRound v.raw shift))

/-- The double that a value stands for. -/
def unbind (v : Fixed) : Binary64 := v.toReal

/-- What a value is stored as: the key of its format and its scaled integer. -/
def stored (v : Fixed) : String × Int := (v.format.key, v.raw)

/-- Rebuilds a stored value. -/
def restore (b : Binder) (key : String) (raw : Int) : Binding Fixed := do
  let f ← .of (Format.parse key)
  let t ← b.typeForFormat f
  .of (Fixed.ofRaw t raw)

end Binder

end BinaryPoint
