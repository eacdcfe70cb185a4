import CellHeap.Buffer.Edit
import CellHeap.Cell.Header
import CellHeap.Heap.Lifecycle
import CellHeap.Series.Read

/-!
# Blobs and lists

A blob is a series of bytes, a list a series of cells. A list holds no antiform.
-/

set_option autoImplicit false

namespace CellHeap

namespace Blob

def make (bytes : List UInt8) : HeapM Cell :=
  return .bare .blob (.series (← Heap.allocateManaged (.bytes bytes)) 0)

def utf8At (h : Heap) (c : Cell) : Except Fault String := do
  match Text.ofUtf8? (← Series.bytesAt h c) with
  | some s => return s
  | none => throw .invalidUtf8

end Blob

namespace Lists

def make (kind : Kind) (cells : List Cell) : HeapM Cell := do
  HeapM.check (Buffer.checkElements cells)
  return .bare kind (.series (← Heap.allocateManaged (.cells cells)) 0)

/-- A group antiform, whose cells are to be spliced in. -/
def makeSplice (cells : List Cell) : HeapM Cell := do
  let group ← make .group cells
  HeapM.check (group.toAntiform .stable)

end Lists

end CellHeap
