import CellHeap.Buffer.Edit
import CellHeap.Heap.Lifecycle

/-!
# Parameters

A parameter says how an action takes an argument and which kinds it admits; a
frozen block may describe it.
-/

set_option autoImplicit false

namespace CellHeap.Parameter

def make (mode : ParamClass) (types : Typeset) (flags : ParamFlags) (spec : List Cell) :
    HeapM Cell := do
  HeapM.check (Buffer.checkElements spec)
  let id ← Heap.allocateFrozen (.cells spec)
  return .bare .parameter (.parameter (some id) mode types flags)

def mode? (c : Cell) : Option ParamClass :=
  match c.payload with
  | .parameter _ m _ _ => some m
  | _ => none

def types? (c : Cell) : Option Typeset :=
  match c.payload with
  | .parameter _ _ t _ => some t
  | _ => none

def flags? (c : Cell) : Option ParamFlags :=
  match c.payload with
  | .parameter _ _ _ f => some f
  | _ => none

def isRefinement (c : Cell) : Bool := ((flags? c).map ParamFlags.isRefinement).getD false

/-- The describing block; without one it is empty. -/
def spec (h : Heap) (c : Cell) : Except Fault (List Cell) :=
  match c.payload with
  | .parameter (some id) _ _ _ => do (← h.read id).cells
  | _ => .ok []

/-- Whether a value may be passed. A parameter without kinds admits all. -/
def accepts (c value : Cell) : Bool :=
  match c.payload with
  | .parameter _ m types _ =>
    let typed := types.isEmpty || types.contains value.kind
    match m with
    | .captured => true
    | .literal => value.isElement && typed
    | .normal => !value.isUnstable && typed
  | _ => false

end CellHeap.Parameter
