import CellHeap.Buffer.Edit
import CellHeap.Sequence.Basic
import CellHeap.Series.Text

/-!
# Maps

A map is a list of keys and values in turn, in the order of insertion, searched
from the front. Keys are compared by content: strings by their text and
sequences by their elements, wherever these are kept.
-/

set_option autoImplicit false

namespace CellHeap.Map

def pairlist (c : Cell) : Except Fault BufferId :=
  match c.payload with
  | .map id => .ok id
  | _ => .error (.elementKind "map" c.kind.name)

def keysEqual (h : Heap) (a b : Cell) : Except Fault Bool := do
  if a.kind ≠ b.kind ∨ a.lift ≠ b.lift ∨ a.sigil ≠ b.sigil then return false
  if a.kind = .rune then return (← Strings.text h a) == (← Strings.text h b)
  match a.payload, b.payload with
  | .series _ _, .series _ _ => return (← Series.rest h a).equals (← Series.rest h b)
  | .sequence _, .sequence _ => return cellsEqual (← Sequence.elements h a) (← Sequence.elements h b)
  | p, q => return p.equals q

/-- The position of a key in a list of keys and values, counted from `i`. -/
def findFrom (h : Heap) (key : Cell) : Nat → List Cell → Except Fault (Option Nat)
  | _, [] => .ok none
  | i, [k] => return if ← keysEqual h k key then some i else none
  | i, k :: _ :: rest => do
    if ← keysEqual h k key then return some i
    findFrom h key (i + 2) rest

def find? (h : Heap) (id : BufferId) (key : Cell) : Except Fault (Option Nat) := do
  findFrom h key 0 (← (← h.read id).cells)

def length (h : Heap) (c : Cell) : Except Fault Nat := do
  return (← h.read (← pairlist c)).length / 2

def get? (h : Heap) (c key : Cell) : Except Fault (Option Cell) := do
  let id ← pairlist c
  match ← find? h id key with
  | none => return none
  | some i => return (← (← h.read id).cells)[i + 1]?

def checkMutable (c : Cell) : Except Fault BufferId :=
  if c.isConst then .error .constView else pairlist c

/-- Sets the value of a key; a new key goes to the end. -/
def put (c key value : Cell) : HeapM Unit := do
  let id ← HeapM.check (checkMutable c)
  HeapM.check (Buffer.checkElements [key, value])
  match ← HeapM.ofRead (find? · id key) with
  | some i => HeapM.edit id (·.setCell (i + 1) value)
  | none => HeapM.edit id fun b => b.insertCells b.length [key, value]

/-- Removes a key, and tells whether it was there. -/
def remove (c key : Cell) : HeapM Bool := do
  let id ← HeapM.check (checkMutable c)
  match ← HeapM.ofRead (find? · id key) with
  | none => return false
  | some i =>
    HeapM.edit id (·.remove i 2)
    return true

def toPairs : List Cell → List (Cell × Cell)
  | k :: v :: rest => (k, v) :: toPairs rest
  | _ => []

def pairs (h : Heap) (c : Cell) : Except Fault (List (Cell × Cell)) := do
  return toPairs (← (← h.read (← pairlist c)).cells)

/-- A map of the given pairs, put one by one. -/
def make (entries : List (Cell × Cell)) : HeapM Cell := do
  let id ← HeapM.place
    { (Buffer.ofContents (.cells [])).toManaged with reserved := entries.length * 2 }
  let c := Cell.bare .map (.map id)
  entries.forM fun (k, v) => put c k v
  return c

end CellHeap.Map
