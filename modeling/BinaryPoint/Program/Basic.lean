import BinaryPoint.Expr

/-! # Constant programs

A program is an optional name and a list of declarations, each of which gives a name to
a value and says how the format of the value is found.
-/

namespace BinaryPoint

/-- How a declaration writes a format. The widths of a written-out format may be anything
that a tree from elsewhere than the parser holds; `misplaced` is a part of a program that
cannot stand for a format. -/
inductive FormatNote
  | explicit (signed : Datum) (integerBits fractionalBits : Int) (place : Option Location)
  | preset (name : String) (place : Option Location)
  | misplaced (kind : String)

/-- A declaration: a name, a value, and a format or a tolerance. -/
structure Decl where
  name : String
  value : Expr
  format : Option FormatNote
  tolerance : Option Expr
  place : Option Location

/-- A program. -/
structure Program where
  name : Option String
  statements : List Decl
  place : Option Location

end BinaryPoint
