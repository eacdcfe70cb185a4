import CellHeap.Buffer.Edit
import CellHeap.Series.Read

/-!
# Editing series

Edits through a series cell. A read-only view, a released or frozen buffer and a
position past the end are refused before anything is written. Growing edits set
storage aside first, and that much stays even if the elements are then refused.
-/

set_option autoImplicit false

namespace CellHeap.Series

/-- Edits the buffer behind a cell, given the position of the cell. -/
def editAt (c : Cell) (f : Nat → Buffer → Except Fault Buffer) : HeapM Unit := do
  let id ← HeapM.ofRead (ensureMutable · c)
  let (_, i) ← HeapM.ofRead (checked · c)
  HeapM.edit id (f i)

/-- Sets storage aside for `n` more units, or for the least that the configuration asks. -/
def reserve (c : Cell) (n : Nat) : HeapM Unit := do
  let h ← get
  editAt c fun _ b => .ok (b.reserve (max n h.config.minCapacity))

def appendCells (c : Cell) (new : List Cell) : HeapM Unit := do
  reserve c new.length
  editAt c fun _ b => b.insertCells b.length new

def insertCells (c : Cell) (new : List Cell) : HeapM Unit := do
  reserve c new.length
  editAt c fun i b => b.insertCells i new

def changeCell (c : Cell) (offset : Nat) (value : Cell) : HeapM Unit :=
  editAt c fun i b => b.setCell (addOffset i offset) value

def appendText (c : Cell) (new : String) : HeapM Unit := do
  reserve c new.utf8ByteSize
  editAt c fun _ b => b.insertText b.length new

def insertText (c : Cell) (new : String) : HeapM Unit := do
  reserve c new.utf8ByteSize
  editAt c fun i b => b.insertText i new

def appendBytes (c : Cell) (new : List UInt8) : HeapM Unit := do
  reserve c new.length
  editAt c fun _ b => b.insertBytes b.length new

def removeAt (c : Cell) (n : Nat) : HeapM Unit := editAt c fun i b => b.remove i n

/-- Cuts the buffer at the position of the cell. -/
def truncateAt (c : Cell) : HeapM Unit := editAt c fun i b => b.truncate i

/-- Cuts the buffer to `n` elements, wherever the cell stands. -/
def truncate (c : Cell) (n : Nat) : HeapM Unit := do
  let id ← HeapM.ofRead (ensureMutable · c)
  HeapM.edit id (·.truncate n)

end CellHeap.Series
