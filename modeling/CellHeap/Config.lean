/-!
# Heap configuration

Limits that a heap applies. Only the inline limit has a bound of its own: a
sequence cannot keep more bytes in a cell than a cell has room for.
-/

set_option autoImplicit false

namespace CellHeap

/-- The bytes that fit into a cell. -/
def inlineCapacity : Nat := 15

structure Config where
  minCapacity : Nat := 4
  initialSlots : Nat := 64
  maxSequenceInline : Nat := inlineCapacity
  deriving DecidableEq, Repr

def Config.validate (c : Config) : Config :=
  { c with maxSequenceInline := min c.maxSequenceInline inlineCapacity }

end CellHeap
