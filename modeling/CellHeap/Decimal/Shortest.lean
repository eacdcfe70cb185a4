/-!
# Shortest decimals

The positive number `m * 2 ^ q` stands for all reals that round to it. Among
the decimals in that interval the shortest is taken, and among several of that
length the nearest; of two equally near ones the larger. All tests are exact
comparisons of natural numbers.
-/

set_option autoImplicit false

namespace CellHeap.Decimal

/-- The decimal `digits * 10 ^ exponent`. -/
structure Scaled where
  digits : Nat
  exponent : Int
  deriving DecidableEq, Repr

/-- A fraction of natural numbers; the denominator is meant to be positive. -/
structure Ratio where
  num : Nat
  den : Nat
  deriving DecidableEq, Repr

namespace Ratio

/-- The fraction `n * b ^ e`. -/
def scaled (n b : Nat) (e : Int) : Ratio :=
  if 0 ≤ e then ⟨n * b.pow e.toNat, 1⟩ else ⟨n, b.pow (-e).toNat⟩

def le (x y : Ratio) : Bool := x.num * y.den ≤ y.num * x.den

def lt (x y : Ratio) : Bool := x.num * y.den < y.num * x.den

/-- The greatest `d` with `d * 10 ^ e` at most the fraction. -/
def floorAt (x : Ratio) (e : Int) : Nat :=
  if 0 ≤ e then x.num / (x.den * Nat.pow 10 e.toNat) else x.num * Nat.pow 10 (-e).toNat / x.den

/-- The least `k` with the fraction below `10 ^ k`, for a positive fraction above `10 ^ (-400)`. -/
def magnitude (x : Ratio) : Int :=
  if x.den ≤ x.num then (toString (x.num / x.den)).length
  else -(((List.range 400).find? fun j => x.den ≤ x.num * Nat.pow 10 (j + 1)).getD 0 : Nat)

end Ratio

/-- The reals that round to a number: `low` to `high`, ends included if `closed`. -/
structure Interval where
  low : Ratio
  value : Ratio
  high : Ratio
  closed : Bool

namespace Interval

/-- The interval of `m * 2 ^ q`. Below a power of two the neighbours lie half as far apart,
which `narrow` says. -/
def of (m : Nat) (q : Int) (narrow : Bool) : Interval where
  low := .scaled (4 * m - if narrow then 1 else 2) 2 (q - 2)
  value := .scaled m 2 q
  high := .scaled (4 * m + 2) 2 (q - 2)
  closed := m % 2 == 0

def contains (i : Interval) (x : Ratio) : Bool :=
  if i.closed then i.low.le x && x.le i.high else i.low.lt x && x.lt i.high

/-- Whether the upper of two neighbours `d` and `d + 1` on the grid `10 ^ e` is at least as near. -/
def upperNearer (i : Interval) (d : Nat) (e : Int) : Bool :=
  (Ratio.scaled (2 * d + 1) 10 e).le ⟨2 * i.value.num, i.value.den⟩

/-- The decimal of the interval on the grid `10 ^ e`, if a neighbour of the value lies in it. -/
def onGrid? (i : Interval) (e : Int) : Option Scaled :=
  let d := i.value.floorAt e
  let down := i.contains (.scaled d 10 e)
  let up := i.contains (.scaled (d + 1) 10 e)
  if up && (!down || i.upperNearer d e) then some ⟨d + 1, e⟩
  else if down then some ⟨d, e⟩
  else none

end Interval

/-- Moves trailing zeros of the digits into the exponent, at most `n` of them. -/
def Scaled.strip : Nat → Scaled → Scaled
  | 0, s => s
  | n + 1, s =>
    if s.digits ≠ 0 ∧ s.digits % 10 = 0 then strip n ⟨s.digits / 10, s.exponent + 1⟩ else s

/-- The shortest decimal of `m * 2 ^ q`. Seventeen digits always suffice. -/
def shortest (m : Nat) (q : Int) (narrow : Bool) : Scaled :=
  let i := Interval.of m q narrow
  let k := i.value.magnitude
  let found := (List.range 17).findSome? fun n : Nat => i.onGrid? (k - (n + 1))
  (found.getD ⟨i.value.floorAt (k - 17), k - 17⟩).strip 20

end CellHeap.Decimal
