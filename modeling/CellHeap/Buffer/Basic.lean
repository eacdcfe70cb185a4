import CellHeap.Cell.Basic

/-!
# Buffers

A buffer holds bytes, text, cells, or exactly two cells. Its length counts
bytes, characters or cells. A buffer knows whether it is frozen, fixed in size
and managed, but not its own handle: liveness and freezing are checked by the
heap before an edit.
-/

set_option autoImplicit false

namespace CellHeap

inductive ElementKind where
  | bytes | text | cells | pairing
  deriving DecidableEq, Repr

namespace ElementKind

def all : List ElementKind := [.bytes, .text, .cells, .pairing]

/-- The name used in messages. -/
def name : ElementKind → String
  | .bytes => "octets"
  | .text => "texte"
  | .cells => "cellules"
  | .pairing => "appariement"

def title : ElementKind → String
  | .bytes => "Bytes"
  | .text => "Text"
  | .cells => "Cells"
  | .pairing => "Pairing"

end ElementKind

inductive Liveness where
  | unmanaged | managed | decayed
  deriving DecidableEq, Repr

def Liveness.all : List Liveness := [.unmanaged, .managed, .decayed]

def Liveness.title : Liveness → String
  | .unmanaged => "Unmanaged"
  | .managed => "Managed"
  | .decayed => "Decayed"

inductive Contents where
  | bytes (bytes : List UInt8)
  | text (text : String)
  | cells (cells : List Cell)
  | pairing (first second : Cell)
  deriving DecidableEq

namespace Contents

def elementKind : Contents → ElementKind
  | .bytes _ => .bytes
  | .text _ => .text
  | .cells _ => .cells
  | .pairing _ _ => .pairing

/-- The number of bytes, characters or cells. -/
def length : Contents → Nat
  | .bytes bs => bs.length
  | .text s => s.length
  | .cells cs => cs.length
  | .pairing _ _ => 2

/-- The number of units that storage takes; text is stored as UTF-8. -/
def extent : Contents → Nat
  | .text s => s.utf8ByteSize
  | c => c.length

/-- Released contents. A pairing always has two cells, so it keeps two blanks. -/
def empty : ElementKind → Contents
  | .bytes => .bytes []
  | .text => .text ""
  | .cells => .cells []
  | .pairing => .pairing .blank .blank

@[simp] theorem elementKind_empty (k : ElementKind) : (empty k).elementKind = k := by
  cases k <;> rfl

end Contents

structure Buffer where
  contents : Contents
  frozen : Bool := false
  fixedSize : Bool := false
  managed : Bool := false
  liveness : Liveness := .unmanaged
  /-- The buffer of cells that names the variables of a variable list. -/
  keylist : Option BufferId := none
  /-- The name of a phase. -/
  label : Option Symbol := none
  /-- The storage set aside so far. -/
  reserved : Nat := 0
  deriving DecidableEq

namespace Buffer

def elementKind (b : Buffer) : ElementKind := b.contents.elementKind

def length (b : Buffer) : Nat := b.contents.length

def ofContents (c : Contents) : Buffer :=
  { contents := c, fixedSize := c.elementKind == .pairing, reserved := c.extent }

def empty (k : ElementKind) (capacity : Nat) : Buffer :=
  { ofContents (.empty k) with reserved := capacity }

def capacity (b : Buffer) : Nat :=
  match b.contents with
  | .pairing _ _ => 2
  | _ => b.reserved

def flagBits (b : Buffer) : Nat :=
  b.frozen.toNat + 2 * b.fixedSize.toNat + 4 * b.managed.toNat

def mismatch (b : Buffer) (expected : ElementKind) : Fault :=
  .elementKind expected.name b.elementKind.name

def bytes (b : Buffer) : Except Fault (List UInt8) :=
  match b.contents with
  | .bytes bs => .ok bs
  | _ => .error (b.mismatch .bytes)

def text (b : Buffer) : Except Fault String :=
  match b.contents with
  | .text s => .ok s
  | _ => .error (b.mismatch .text)

/-- The cells of an array or of a pairing. -/
def cells (b : Buffer) : Except Fault (List Cell) :=
  match b.contents with
  | .cells cs => .ok cs
  | .pairing x y => .ok [x, y]
  | _ => .error (b.mismatch .cells)

/-- The buffers named by the key list and by the readable cells. -/
def references (b : Buffer) : List BufferId :=
  b.keylist.toList ++
    match b.cells with
    | .ok cs => (cs.filter Cell.isReadable).flatMap Cell.references
    | .error _ => []

/-- The buffer in the hands of the collector. -/
def toManaged (b : Buffer) : Buffer := { b with managed := true, liveness := .managed }

/-- Drops the contents and keeps the kind of elements. -/
def release (b : Buffer) : Buffer :=
  { b with contents := .empty b.elementKind, keylist := none, reserved := 0 }

end Buffer

end CellHeap
