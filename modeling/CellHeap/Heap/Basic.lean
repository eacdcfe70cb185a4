import CellHeap.Buffer.Basic
import CellHeap.Config

/-!
# The heap

A heap keeps buffers in slots. A slot carries a generation of 32 bits, which steps
on whenever its buffer is released and comes back to zero after the last one; a
handle reads only the buffer of its own generation. Empty slots wait on a stack and
the one released last is filled first. The heap also holds the symbol table of its
words.
-/

set_option autoImplicit false

namespace CellHeap

structure Slot where
  generation : UInt32
  buffer : Option Buffer
  deriving DecidableEq

structure Heap where
  slots : Array Slot := #[]
  /-- Indices of the empty slots, the next one to fill first. -/
  free : List Nat := []
  symbols : SymbolTable := {}
  config : Config := {}
  deriving DecidableEq

structure HeapStats where
  live : Nat
  managed : Nat
  frozen : Nat
  decayed : Nat
  deriving DecidableEq, Repr

/-- Computations on a heap. The heap survives a fault, so what was done before it stays done. -/
abbrev HeapM := EStateM Fault Heap

namespace Heap

def new (config : Config) : Heap := { config := config.validate }

def spelling (h : Heap) (s : Symbol) : String := h.symbols.resolve s

/-- The buffer that a handle names, decayed or not. -/
def buffer? (h : Heap) (id : BufferId) : Option Buffer := do
  let slot ← h.slots[id.index]?
  if slot.generation = id.generation then slot.buffer else none

/-- The buffer that a handle names, if it can be read. -/
def read (h : Heap) (id : BufferId) : Except Fault Buffer :=
  match h.buffer? id with
  | some b => if b.liveness = .decayed then .error (.dataFreed id) else .ok b
  | none => .error (.dataFreed id)

def isReadable (h : Heap) (id : BufferId) : Bool := (h.read id).isOk

/-- The buffer that a handle names, if it can be read and edited. -/
def writable (h : Heap) (id : BufferId) : Except Fault Buffer := do
  let b ← h.read id
  if b.frozen then throw (.frozen id)
  return b

def liveness? (h : Heap) (id : BufferId) : Option Liveness := (h.buffer? id).map (·.liveness)

def isManaged (h : Heap) (id : BufferId) : Bool := ((h.buffer? id).map (·.managed)).getD false

def isFrozen (h : Heap) (id : BufferId) : Except Fault Bool := return (← h.read id).frozen

/-- The buffers named by the contents of a buffer. -/
def children (h : Heap) (id : BufferId) : Except Fault (List BufferId) :=
  return (← h.read id).references

/-- Handles of the buffers present, in the order of their slots. -/
def ids (h : Heap) : List BufferId :=
  h.slots.toList.zipIdx.filterMap fun (slot, i) =>
    slot.buffer.map fun _ => ⟨i, slot.generation⟩

def buffers (h : Heap) : List Buffer := h.slots.toList.filterMap (·.buffer)

def stats (h : Heap) : HeapStats where
  live := h.buffers.length
  managed := h.buffers.countP (·.managed)
  frozen := h.buffers.countP (·.frozen)
  decayed := h.buffers.countP (·.liveness == .decayed)

def size (h : Heap) : Nat := h.slots.size - h.free.length

/-- Replaces the buffer of a slot. -/
def setBuffer (h : Heap) (id : BufferId) (b : Buffer) : Heap :=
  { h with slots := h.slots.modify id.index fun s => { s with buffer := some b } }

/-- Places a buffer in the slot released last, or in a new one. -/
def place (h : Heap) (b : Buffer) : BufferId × Heap :=
  match h.free with
  | [] =>
    (⟨h.slots.size, 0⟩, { h with slots := h.slots.push ⟨0, some b⟩ })
  | i :: rest =>
    let generation := (h.slots[i]?.map (·.generation)).getD 0
    (⟨i, generation⟩,
      { h with slots := h.slots.modify i fun s => { s with buffer := some b }, free := rest })

/-- Empties the slot of a handle and makes it the next to fill. -/
def vacate (h : Heap) (id : BufferId) : Heap :=
  { h with
    slots := h.slots.modify id.index fun s => ⟨s.generation + 1, none⟩
    free := id.index :: h.free }

end Heap

namespace HeapM

/-- Reads without a change. -/
def ofRead {α : Type} (f : Heap → Except Fault α) : HeapM α := fun h =>
  match f h with
  | .ok a => .ok a h
  | .error e => .error e h

/-- The result of a check that needs no heap. -/
def check {α : Type} (x : Except Fault α) : HeapM α := ofRead fun _ => x

def place (b : Buffer) : HeapM BufferId := fun h =>
  let (id, h') := h.place b
  .ok id h'

/-- Changes a readable buffer, frozen or not. -/
def mark (id : BufferId) (f : Buffer → Buffer) : HeapM Unit := fun h =>
  match h.read id with
  | .ok b => .ok () (h.setBuffer id (f b))
  | .error e => .error e h

/-- Edits a buffer that is readable and not frozen. -/
def edit (id : BufferId) (f : Buffer → Except Fault Buffer) : HeapM Unit := fun h =>
  match h.writable id >>= f with
  | .ok b => .ok () (h.setBuffer id b)
  | .error e => .error e h

end HeapM

end CellHeap
