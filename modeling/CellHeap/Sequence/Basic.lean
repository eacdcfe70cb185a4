import CellHeap.Heap.Lifecycle
import CellHeap.Sequence.Grammar

/-!
# Sequences

A sequence never changes once it is made. Small integers and a word beside a
blank are kept in the cell itself, two elements in a pairing, and anything else
in an array, both frozen. Readers do not see which form was chosen.
-/

set_option autoImplicit false

namespace CellHeap

/-- Whether a sequence may be kept in a short form. -/
inductive Compression where
  | adaptive | never
  deriving DecidableEq, Repr

namespace Sequence

/-- A cell without flags and binding, of which a short form loses nothing. -/
def isPristine (c : Cell) : Bool := c.flags == .none && c.binding.isNone

/-- The byte of a pristine integer from 0 to 255. -/
def byte? (c : Cell) : Option UInt8 :=
  if isPristine c then
    match c.payload with
    | .integer i => if 0 ≤ i.toInt ∧ i.toInt ≤ 255 then some i.toInt.toNat.toUInt8 else none
    | _ => none
  else none

def inlineBytes? (elements : List Cell) (limit : Nat) : Option InlineBytes := do
  if limit < elements.length then none
  InlineBytes.ofBytes? (← elements.mapM byte?)

def wordStorage? : List Cell → Option Storage
  | [a, b] =>
    if isPristine a && isPristine b then
      match a.isBlank, b.isBlank with
      | true, false => b.symbol?.map (.word · .leading)
      | false, true => a.symbol?.map (.word · .trailing)
      | _, _ => none
    else none
  | _ => none

/-- The form that needs no buffer, if there is one. -/
def inlineStorage? (elements : List Cell) (limit : Nat) : Option Storage :=
  match inlineBytes? elements limit with
  | some b => some (.bytes b)
  | none => wordStorage? elements

/-- Keeps validated elements in the form that the compression asks for. -/
def store (compression : Compression) (elements : List Cell) : HeapM Storage := do
  match compression with
  | .never => return .array (← Heap.allocateFrozen (.cells elements))
  | .adaptive =>
    match inlineStorage? elements (← get).config.maxSequenceInline with
    | some s => return s
    | none =>
      match elements with
      | [a, b] => return .pair (← Heap.allocateFrozen (.pairing a b))
      | _ => return .array (← Heap.allocateFrozen (.cells elements))

/-- A sequence of the elements, or why they do not form one. -/
def make (kind : Kind) (elements : List Cell) (compression : Compression) :
    HeapM (Except Rejection Cell) := do
  match validate (← get) kind elements with
  | .error why => return .error why
  | .ok () => return .ok (.bare kind (.sequence (← store compression elements)))

def storage (c : Cell) : Except Fault Storage :=
  match c.payload with
  | .sequence s => .ok s
  | _ => .error (.elementKind "séquence" c.kind.name)

def storedLength (h : Heap) : Storage → Except Fault Nat
  | .bytes b => .ok b.size
  | .word _ _ => .ok 2
  | .pair id | .array id => return (← h.read id).length

/-- The elements of a form that needs no buffer. -/
def wordElements (s : Symbol) : Side → List Cell
  | .leading => [.blank, .word s]
  | .trailing => [.word s, .blank]

def storedElements (h : Heap) : Storage → Except Fault (List Cell)
  | .bytes b => .ok (b.bytes.map fun x => .integer (Int64.ofNat x.toNat))
  | .word s side => .ok (wordElements s side)
  | .pair id | .array id => do (← h.read id).cells

/-- An element as it is kept. -/
def storedAt (h : Heap) (s : Storage) (i : Nat) : Except Fault Cell := do
  let elements ← storedElements h s
  match elements[i]? with
  | some c => return c
  | none => throw (.outOfRange i elements.length)

/-- A word without a binding takes the one of the sequence. -/
def inherit (binding : Option Binding) (c : Cell) : Cell :=
  if c.kind == .word && c.binding.isNone then { c with binding } else c

def length (h : Heap) (c : Cell) : Except Fault Nat := do storedLength h (← storage c)

def elementAt (h : Heap) (c : Cell) (i : Nat) : Except Fault Cell :=
  return inherit c.binding (← storedAt h (← storage c) i)

def elements (h : Heap) (c : Cell) : Except Fault (List Cell) := do
  let n ← length h c
  (List.range n).mapM (elementAt h c)

/-- The end at which a blank stands, if any. -/
def blankSide (h : Heap) (c : Cell) : Except Fault (Option Side) := do
  match ← storage c with
  | .word _ side => return some side
  | _ =>
    let n ← length h c
    if (← elementAt h c 0).isBlank then return some .leading
    if (← elementAt h c (n - 1)).isBlank then return some .trailing
    return none

/-- A blank followed by a word. -/
def isRefinement (h : Heap) (c : Cell) : Except Fault Bool := do
  if !c.kind.isSequence then return false
  if (← length h c) ≠ 2 then return false
  if (← blankSide h c) ≠ some .leading then return false
  return (← elementAt h c 1).kind == .word

end Sequence

end CellHeap
