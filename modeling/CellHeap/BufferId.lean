/-!
# Buffer handles

A handle is a slot index with the generation that the slot had when the buffer
was placed there. A generation is a word of 32 bits and steps on at every release
of the slot, so a handle to a released buffer names no later tenant of the slot
until 2^32 releases have brought the generation round. An index is any number
here; no index stops at the greatest one of 32 bits, as it would from 2^32 slots
on.
-/

set_option autoImplicit false

namespace CellHeap

structure BufferId where
  index : Nat
  generation : UInt32
  deriving DecidableEq, Repr

def BufferId.text (b : BufferId) : String :=
  "buf#" ++ toString b.index ++ "@" ++ toString b.generation

end CellHeap
