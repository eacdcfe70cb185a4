import CellHeap.Context.Basic

/-!
# Frames

A frame is the context of a call with a lens: the phase that it runs, whose
buffer carries a label, or a label of its own once it does not run. Finding the
name of a frame never touches its variables, so an expired frame keeps it.
-/

set_option autoImplicit false

namespace CellHeap.Frame

/-- A phase: the frozen body of an action, with its label. -/
def makePhase (label : Option Symbol) (body : List Cell) : HeapM BufferId := do
  HeapM.check (Buffer.checkElements body)
  HeapM.place { (Buffer.ofContents (.cells body)).toManaged with frozen := true, label }

def make (vars : List (Symbol × Cell)) (lens : Lens) : HeapM Cell :=
  return .bare .frame (.frame (← Context.makeVarlist vars) lens)

/-- The call is over: the variables decay. -/
def expire (c : Cell) : HeapM Unit := do
  Heap.decay (← HeapM.check (Context.varlist c))

def lens (c : Cell) : Except Fault Lens :=
  match c.payload with
  | .frame _ l => .ok l
  | _ => .error (.elementKind "frame" c.kind.name)

def label (h : Heap) (c : Cell) : Except Fault (Option Symbol) := do
  match ← lens c with
  | .phase p => return (← h.read p).label
  | .label s => return s

def setLens (c : Cell) (l : Lens) : Except Fault Cell :=
  match c.payload with
  | .frame v _ => .ok { c with payload := .frame v l }
  | _ => .error (.elementKind "frame" c.kind.name)

/-- The frame does not run any more and keeps the label of its phase. -/
def cacheLabel (h : Heap) (c : Cell) : Except Fault Cell := do
  setLens c (.label (← label h c))

/-- The antiform of a frame is an action. -/
def toAction (c : Cell) : Except Fault Cell := c.toAntiform .stable

end CellHeap.Frame
