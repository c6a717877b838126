import BinaryPoint.Fixed

/-! # Constants of a program

A graph holds the constants that could be built, in the order of their declarations and
each under a name of its own.
-/

namespace BinaryPoint

/-- A constant: values of one format. A scalar has a single value and may be used in
expressions; the others are lists of samples. -/
structure Constant where
  name : String
  format : Format
  values : List Fixed
  scalar : Bool
  tolerance : Option Binary64
  place : Option Location

namespace Constant

/-- The value of a scalar. -/
def value (c : Constant) : Except Fault Fixed :=
  match c.scalar, c.values with
  | true, v :: _ => .ok v
  | _, _ => refuse (.notScalar c.name)

/-- The values as doubles. -/
def reals (c : Constant) : List Binary64 := c.values.map Fixed.toReal

end Constant

/-- The constants of a program. -/
structure Graph where
  name : Option String := none
  constants : List Constant := []

namespace Graph

/-- The constant of a name. -/
def find? (g : Graph) (name : String) : Option Constant :=
  g.constants.find? (·.name = name)

/-- Whether there is a constant of a name. -/
def contains (g : Graph) (name : String) : Bool := g.constants.any (·.name = name)

/-- The constant of a name that has to be there. -/
def get (g : Graph) (name : String) : Except Fault Constant :=
  match g.find? name with
  | some c => .ok c
  | none => refuse (.noKey (.text name))

/-- The graph with one more constant at the end. -/
def push (g : Graph) (c : Constant) : Graph := { g with constants := g.constants ++ [c] }

/-- The graph with one more constant, whose name has to be new. -/
def add (g : Graph) (c : Constant) : Except Fault Graph :=
  if g.contains c.name then refuse (.duplicateConstant c.name) else .ok (g.push c)

/-- The names of the constants. -/
def names (g : Graph) : List String := g.constants.map (·.name)

/-- The formats of the constants, by name. -/
def formats (g : Graph) : List (String × Format) := g.constants.map fun c => (c.name, c.format)

end Graph

end BinaryPoint
