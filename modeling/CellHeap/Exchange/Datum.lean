/-!
# Plain data

Data in the shape in which small values are exchanged: nothing, truth values,
whole and other numbers, texts, lists, and records of named fields.
-/

set_option autoImplicit false

namespace CellHeap

inductive Datum where
  | null
  | bool (value : Bool)
  | whole (value : Int)
  /-- A number that is not whole, or not written as one. -/
  | fraction
  | text (value : String)
  | list (items : List Datum)
  | record (fields : List (String × Datum))
  deriving Inhabited

namespace Datum

def field? (fields : List (String × Datum)) (name : String) : Option Datum := fields.lookup name

/-- A natural number below a limit. -/
def natural? (limit : Nat) : Datum → Option Nat
  | .whole i => if 0 ≤ i ∧ i < limit then some i.toNat else none
  | _ => none

def bool? : Datum → Option Bool
  | .bool b => some b
  | _ => none

def text? : Datum → Option String
  | .text s => some s
  | _ => none

/-- The name of a case without contents: a text, or a record of it and nothing. -/
def caseName? : Datum → Option String
  | .text s => some s
  | .record [(s, .null)] => some s
  | _ => none

end Datum

end CellHeap
