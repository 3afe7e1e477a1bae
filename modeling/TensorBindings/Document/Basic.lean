/-!
Contract: the values of JSON documents.

Owns: the value type, the decimal numbers in it, look-up of a field, and the test
whether a value counts as set.

A record keeps its fields in the order in which their names first appear. Integers
are unbounded. A number written with a point or an exponent is a decimal, even where
it is whole.

Does not own: the text of documents (`Document.Reader`, `Document.Writer`).
-/

set_option autoImplicit false

namespace TensorBindings

/-- A number written with a point or an exponent, or one of the values that such
numbers cannot reach. -/
inductive Decimal where
  /-- The number `± coefficient · 10 ^ exponent`. -/
  | finite (negative : Bool) (coefficient : Nat) (exponent : Int)
  | infinite (negative : Bool)
  | undefined
deriving DecidableEq, Repr

namespace Decimal

/-- The least positive number of double precision is `2 ^ -1074`; a magnitude of at
most half of it rounds to zero. -/
def halfLeastPositive : Nat := Nat.pow 2 1075

/-- More decimal places than this above the number of digits leave a magnitude far
below the least positive number. -/
def placesBeyondRange : Nat := 400

/-- The number is zero in double precision. -/
def roundsToZero : Decimal → Bool
  | .finite _ coefficient exponent =>
      if coefficient = 0 then true
      else if 0 ≤ exponent then false
      else
        let places := exponent.natAbs
        if (Nat.toDigits 10 coefficient).length + placesBeyondRange < places then true
        else coefficient * halfLeastPositive ≤ Nat.pow 10 places
  | _ => false

end Decimal

inductive Document where
  | null
  | bool (value : Bool)
  | integer (value : Int)
  | decimal (value : Decimal)
  | text (value : String)
  | list (items : List Document)
  | record (fields : List (String × Document))
deriving Repr

namespace Document

/-- A field of a list of fields. -/
def lookup (key : String) (fields : List (String × Document)) : Option Document :=
  (fields.find? (·.1 == key)).map (·.2)

/-- Set a field: a name that is present keeps its place and takes the new value. -/
def setField (key : String) (value : Document) :
    List (String × Document) → List (String × Document)
  | [] => [(key, value)]
  | (name, old) :: rest =>
      if name = key then (key, value) :: rest else (name, old) :: setField key value rest

/-- A value counts as set unless it is false, null, a zero or empty. -/
def isSet : Document → Bool
  | .null => false
  | .bool value => value
  | .integer value => value != 0
  | .decimal value => !value.roundsToZero
  | .text value => value != ""
  | .list items => !items.isEmpty
  | .record fields => !fields.isEmpty

/-- The name under which reports mention the type of a value. -/
def typeName : Document → String
  | .null => "NoneType"
  | .bool _ => "bool"
  | .integer _ => "int"
  | .decimal _ => "float"
  | .text _ => "str"
  | .list _ => "list"
  | .record _ => "dict"

def text? : Document → Option String
  | .text value => some value
  | _ => none

end Document

end TensorBindings
