import CellHeap.Heap.Lifecycle

/-!
# Pairs

A pair is a frozen pairing of two numbers.
-/

set_option autoImplicit false

namespace CellHeap.Pair

def checkNumber (c : Cell) : Except Fault Unit :=
  if c.isBare && c.kind.isNumber then .ok () else .error (.elementKind "nombre" c.kind.name)

def make (x y : Cell) : HeapM Cell := do
  HeapM.check (checkNumber x)
  HeapM.check (checkNumber y)
  return .bare .pair (.pairing (← Heap.allocateFrozen (.pairing x y)))

def parts (h : Heap) (c : Cell) : Except Fault (Cell × Cell) :=
  match c.payload with
  | .pairing id => do
    match ← (← h.read id).cells with
    | [x, y] => return (x, y)
    | cs => throw (.outOfRange 2 cs.length)
  | _ => .error (.elementKind "pair" c.kind.name)

end CellHeap.Pair
