import CellHeap.Buffer.Edit
import CellHeap.Heap.Lifecycle
import CellHeap.Cell.Variable

/-!
# Contexts

A context is a list of variables beside a list of words that names them, in the
same order. A key keeps its position once it has one.

`put` stands for the insertion into a hashed map that keeps the order of its keys,
as a library outside this one provides it; the map itself is not modelled.
-/

set_option autoImplicit false

namespace CellHeap.Context

/-- Sets the value of a key in a table: a new key goes to the end, an old one stays in place. -/
def put (key : Symbol) (value : Cell) : List (Symbol × Cell) → List (Symbol × Cell)
  | [] => [(key, value)]
  | (k, v) :: rest => if k = key then (k, value) :: rest else (k, v) :: put key value rest

/-- The table of given variables: the last value of a key, at its first position. -/
def table (vars : List (Symbol × Cell)) : List (Symbol × Cell) :=
  vars.foldl (fun t (k, v) => put k (Variable.fresh v) t) []

/-- Allocates the variables with their keys; the keys come first. -/
def makeVarlist (vars : List (Symbol × Cell)) : HeapM BufferId := do
  HeapM.check (vars.forM fun (_, v) => Variable.checkStable v)
  let t := table vars
  let keylist ← Heap.allocateManaged (.cells (t.map fun (k, _) => .word k))
  HeapM.place { (Buffer.ofContents (.cells (t.map (·.2)))).toManaged with keylist := some keylist }

def make (kind : Kind) (vars : List (Symbol × Cell)) : HeapM Cell :=
  return .bare kind (.context (← makeVarlist vars))

def varlist (c : Cell) : Except Fault BufferId :=
  match c.payload with
  | .context v | .frame v _ => .ok v
  | _ => .error (.elementKind "contexte" c.kind.name)

def keylist (h : Heap) (v : BufferId) : Except Fault BufferId := do
  match (← h.read v).keylist with
  | some k => return k
  | none => throw .missingKey

def keyCells (h : Heap) (v : BufferId) : Except Fault (List Cell) := do
  (← h.read (← keylist h v)).cells

def position? (h : Heap) (v : BufferId) (key : Symbol) : Except Fault (Option Nat) :=
  return (← keyCells h v).findIdx? (·.symbol? == some key)

def position (h : Heap) (v : BufferId) (key : Symbol) : Except Fault Nat := do
  match ← position? h v key with
  | some i => return i
  | none => throw .missingKey

/-- The slot of a key. -/
def slot (h : Heap) (c : Cell) (key : Symbol) : Except Fault Cell := do
  let v ← varlist c
  let i ← position h v key
  let vars ← (← h.read v).cells
  match vars[i]? with
  | some s => return s
  | none => throw (.outOfRange i vars.length)

def keys (h : Heap) (c : Cell) : Except Fault (List Symbol) := do
  return (← keyCells h (← varlist c)).filterMap Cell.symbol?

def length (h : Heap) (c : Cell) : Except Fault Nat := do
  return (← h.read (← varlist c)).length

/-- Whether a key names a variable; a buffer without keys names none. -/
def hasKey (h : Heap) (c : Cell) (key : Symbol) : Except Fault Bool := do
  match position h (← varlist c) key with
  | .ok _ => return true
  | .error .missingKey => return false
  | .error e => throw e

def read (h : Heap) (c : Cell) (key : Symbol) : Except Fault Cell :=
  return Variable.read (← slot h c key)

def readMeta (h : Heap) (c : Cell) (key : Symbol) : Except Fault Cell := do
  Variable.readMeta (← slot h c key)

/-- Changes the slot of a key. -/
def modify (c : Cell) (key : Symbol) (f : Cell → Except Fault Cell) : HeapM Unit := do
  if c.isConst then throw .constView
  let v ← HeapM.check (varlist c)
  let i ← HeapM.ofRead (position · v key)
  HeapM.edit v (·.modifySlot i f)

def write (c : Cell) (key : Symbol) (value : Cell) : HeapM Unit :=
  modify c key (Variable.assign · value)

def writeMeta (c : Cell) (key : Symbol) (value : Cell) : HeapM Unit :=
  modify c key (Variable.assignMeta · value)

def setLocked (c : Cell) (key : Symbol) (on : Bool) : HeapM Unit :=
  modify c key fun s => .ok (s.setLocked on)

/-- Writes a key, or adds it at the end if it is new. -/
def append (c : Cell) (key : Symbol) (value : Cell) : HeapM Unit := do
  if ← HeapM.ofRead (hasKey · c key) then
    write c key value
  else
    if c.isConst then throw .constView
    HeapM.check (Variable.checkStable value)
    let v ← HeapM.check (varlist c)
    let k ← HeapM.ofRead (keylist · v)
    let _ ← HeapM.ofRead (·.writable v)
    HeapM.edit k (·.pushSlot (.word key))
    HeapM.edit v (·.pushSlot (Variable.fresh value))

end CellHeap.Context
