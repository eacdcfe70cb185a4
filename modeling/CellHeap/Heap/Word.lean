import CellHeap.Heap.Lifecycle

/-!
# Words

A word is a symbol of the heap that spells it. A keyword is a word antiform.
-/

set_option autoImplicit false

namespace CellHeap.Word

def make (spelling : String) : HeapM Cell := return .word (← Heap.intern spelling)

/-- A word antiform. -/
def makeKeyword (spelling : String) : HeapM Cell :=
  return { (← make spelling) with lift := .anti }

/-- The spelling of a word; other cells have none. -/
def spelling (h : Heap) (c : Cell) : String := (c.symbol?.map h.spelling).getD ""

def isKeyword (h : Heap) (c : Cell) (name : String) : Bool :=
  c.kind == .word && c.isAntiform && spelling h c == name

end CellHeap.Word
