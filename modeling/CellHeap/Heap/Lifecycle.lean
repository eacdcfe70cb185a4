import CellHeap.Heap.Basic

/-!
# The life of a buffer

A buffer is allocated unmanaged. Managing hands it to the collector, freezing
makes it immutable, decay drops its contents; none of them is ever undone. Only
unmanaged buffers are freed by hand, and only managed ones are swept.
-/

set_option autoImplicit false

namespace CellHeap.Heap

def intern (s : String) : HeapM Symbol := fun h =>
  let (sym, t) := h.symbols.intern s
  .ok sym { h with symbols := t }

def allocate (k : ElementKind) (capacity : Nat) : HeapM BufferId := do
  let h ← get
  HeapM.place (.empty k (max capacity h.config.minCapacity))

def allocateWith (c : Contents) : HeapM BufferId := HeapM.place (.ofContents c)

/-- Allocates a buffer that the collector owns from the start. -/
def allocateManaged (c : Contents) : HeapM BufferId :=
  HeapM.place (Buffer.ofContents c).toManaged

/-- Allocates a managed buffer that is frozen from the start. -/
def allocateFrozen (c : Contents) : HeapM BufferId :=
  HeapM.place { (Buffer.ofContents c).toManaged with frozen := true }

def manage (id : BufferId) : HeapM Unit :=
  HeapM.mark id fun b => if b.managed then b else b.toManaged

def freeze (id : BufferId) : HeapM Unit := HeapM.mark id fun b => { b with frozen := true }

/-- The owner is gone: the contents are dropped and every later read fails. -/
def decay (id : BufferId) : HeapM Unit := fun h =>
  match h.buffer? id with
  | none => .error (.dataFreed id) h
  | some b =>
    if b.liveness = .decayed then .ok () h
    else .ok () (h.setBuffer id { b.release with liveness := .decayed })

def release (id : BufferId) : HeapM Unit := fun h =>
  match h.buffer? id with
  | none => .error (.dataFreed id) h
  | some b => if b.managed then .error (.managed id) h else .ok () (h.vacate id)

/-- Releases the managed buffers that are not marked, decayed ones included, and counts them. -/
def sweep (marked : BufferId → Bool) : HeapM Nat := fun h =>
  let doomed := h.ids.filter fun id => h.isManaged id && !marked id
  .ok doomed.length (doomed.foldl vacate h)

end CellHeap.Heap
