import BinaryPoint.Binary64.Basic

/-! # Untyped data

What a registry file may hold, and what a caller may hand over where a number or a
width is wanted: a value of unknown type. Mappings keep the order of their entries.
-/

namespace BinaryPoint

/-- A value of unknown type. -/
inductive Datum
  | null
  | bool (b : Bool)
  | int (n : Int)
  | real (x : Binary64)
  | text (s : String)
  | date (year month day : Nat)
  | list (items : List Datum)
  | map (entries : List (Datum × Datum))
deriving Inhabited

namespace Datum

/-- The name of a value's type, as messages give it. -/
def typeName : Datum → String
  | .null => "NoneType"
  | .bool _ => "bool"
  | .int _ => "int"
  | .real _ => "float"
  | .text _ => "str"
  | .date .. => "datetime.date"
  | .list _ => "list"
  | .map _ => "dict"

/-- The integer that a value is, a truth value counting as 0 or 1. -/
def integer? : Datum → Option Int
  | .bool b => some b.toNat
  | .int n => some n
  | _ => none

/-- A number of unknown type, a truth value counting as 0 or 1. -/
inductive Number
  | int (n : Int)
  | real (x : Binary64)

/-- The number that a value is. -/
def number? : Datum → Option Number
  | .bool b => some (.int b.toNat)
  | .int n => some (.int n)
  | .real x => some (.real x)
  | _ => none

/-- The order of two numbers, exact also between an integer and a double; NaN is in no
order. -/
def Number.compare? : Number → Number → Option Ordering
  | .int a, .int b => some (compare a b)
  | .real x, .real y => x.compare? y
  | .int a, .real y => againstReal a y
  | .real x, .int b => (againstReal b x).map Ordering.swap
where
  /-- An integer against a double. -/
  againstReal (a : Int) : Binary64 → Option Ordering
    | .nan => none
    | .inf negative => some (if negative then .gt else .lt)
    | y => some (if (a : Rat) < y.toRat then .lt else if y.toRat < (a : Rat) then .gt else .eq)

mutual
/-- Equality of values: numbers by value whatever their type, mappings whatever the order
of their entries. -/
def eq : Datum → Datum → Bool
  | .null, .null => true
  | .text a, .text b => a == b
  | .date y m d, .date y' m' d' => y == y' && m == m' && d == d'
  | .list as, .list bs => eqItems as bs
  | .map as, .map bs => as.length == bs.length && eqEntries as bs
  | a, b =>
    match a.number?, b.number? with
    | some x, some y => x.compare? y == some .eq
    | _, _ => false

/-- Equality of lists, item by item. -/
def eqItems : List Datum → List Datum → Bool
  | [], [] => true
  | a :: as, b :: bs => a.eq b && eqItems as bs
  | _, _ => false

/-- Whether every entry of the first mapping is in the second. -/
def eqEntries : List (Datum × Datum) → List (Datum × Datum) → Bool
  | [], _ => true
  | (k, v) :: as, bs => eqLookup k v bs && eqEntries as bs

/-- Whether an entry is in a mapping. -/
def eqLookup (k v : Datum) : List (Datum × Datum) → Bool
  | [] => false
  | (k', v') :: bs => (k.eq k' && v.eq v') || eqLookup k v bs
end

/-- The value that a mapping has under a key. -/
def lookup (key : Datum) (entries : List (Datum × Datum)) : Option Datum :=
  (entries.find? fun e => e.1.eq key).map (·.2)

/-- A mapping with one more entry; a key that is there already keeps its place and its
form and gets the new value. -/
def insert (key value : Datum) : List (Datum × Datum) → List (Datum × Datum)
  | [] => [(key, value)]
  | e :: es => if e.1.eq key then (e.1, value) :: es else e :: insert key value es

end Datum

end BinaryPoint
