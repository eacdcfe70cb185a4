import CellHeap.Decimal.Binary64
import CellHeap.Decimal.Shortest

/-!
# Decimal text

Numbers are written positionally, never with an exponent. An integral number
shows all its digits and one zero after the point; any other finite number shows
its shortest decimal.
-/

set_option autoImplicit false

namespace CellHeap.Decimal

def zeros (n : Nat) : String := String.ofList (List.replicate n '0')

/-- Positional text of a decimal. -/
def Scaled.text (s : Scaled) : String :=
  let ds := toString s.digits
  if 0 ≤ s.exponent then ds ++ zeros s.exponent.toNat
  else
    let places := (-s.exponent).toNat
    if places < ds.length then
      let cs := ds.toList
      String.ofList (cs.take (ds.length - places)) ++ "."
        ++ String.ofList (cs.drop (ds.length - places))
    else "0." ++ zeros (places - ds.length) ++ ds

/-- The natural number `m * 2 ^ q`, if it is one. -/
def natural? (m : Nat) (q : Int) : Option Nat :=
  if 0 ≤ q then some (m * Nat.pow 2 q.toNat)
  else
    let d := Nat.pow 2 (-q).toNat
    if m % d = 0 then some (m / d) else none

def magnitudeText (x : Binary64) : String :=
  match natural? x.significand x.scale with
  | some n => toString n ++ ".0"
  | none =>
    (shortest x.significand x.scale (x.fraction == 0 && 1 < x.exponent)).text

def text (x : Binary64) : String :=
  if x.isNaN then "NaN"
  else
    let body := if x.isInfinite then "inf" else magnitudeText x
    if x.isNegative then "-" ++ body else body

end CellHeap.Decimal
