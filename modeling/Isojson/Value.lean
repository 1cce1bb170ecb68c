import Mathlib

/-!
# Python values

The values of JSON-like Python data, apart from the objects that hold them: what a reader of a
document sees and what a writer has to say.
-/

namespace Isojson

inductive Value
  | none
  | bool (b : Bool)
  | int (z : ℤ)
  /-- A float, by its IEEE 754 bits. -/
  | float (bits : UInt64)
  /-- A string, by its code points. -/
  | str (s : List ℕ)
  | list (items : List Value)
  | tuple (items : List Value)
  | dict (items : List (Value × Value))

end Isojson
