import CellHeap.Heap.Basic
import CellHeap.Text.Offset

/-!
# Reading series

A series cell is a position in a buffer. The position is never trusted, since
the buffer may have been shortened through another cell: every access checks
first that the buffer can be read and then that the position is not past its
end. The end itself is a position, but not an element.
-/

set_option autoImplicit false

namespace CellHeap

/-- The elements from a position to the end. -/
inductive Slice where
  | bytes (bytes : List UInt8)
  | text (text : String)
  | cells (cells : List Cell)
  deriving DecidableEq

namespace Slice

def length : Slice → Nat
  | .bytes bs => bs.length
  | .text s => s.length
  | .cells cs => cs.length

/-- Equality of elements, numbers compared as numbers. -/
def equals : Slice → Slice → Bool
  | .bytes a, .bytes b => a == b
  | .text a, .text b => a == b
  | .cells a, .cells b => cellsEqual a b
  | _, _ => false

end Slice

/-- One element of a series. -/
inductive Item where
  | byte (byte : UInt8)
  | char (char : Char)
  | cell (cell : Cell)
  deriving DecidableEq

/-- The greatest position that can be asked for. -/
def maxIndex : Nat := Nat.pow 2 64 - 1

/-- Adds an offset to a position; the sum stays at the greatest position. -/
def addOffset (i k : Nat) : Nat := min (i + k) maxIndex

namespace Series

def parts (c : Cell) : Except Fault (BufferId × Nat) :=
  match c.payload with
  | .series b i => .ok (b, i)
  | _ => .error (.elementKind "série" c.kind.name)

def index (c : Cell) : Except Fault Nat := return (← parts c).2

/-- The buffer and a position that is not past its end. -/
def checked (h : Heap) (c : Cell) : Except Fault (Buffer × Nat) := do
  let (id, i) ← parts c
  let b ← h.read id
  if b.length < i then throw (.outOfRange i b.length)
  return (b, i)

def lengthAt (h : Heap) (c : Cell) : Except Fault Nat := do
  let (b, i) ← checked h c
  return b.length - i

def rest (h : Heap) (c : Cell) : Except Fault Slice := do
  let (b, i) ← checked h c
  match b.contents with
  | .bytes bs => return .bytes (bs.drop i)
  | .text s => return .text (← Text.splitAt s i).2
  | .cells cs => return .cells (cs.drop i)
  | .pairing x y => return .cells ([x, y].drop i)

def item? (c : Contents) (i : Nat) : Option Item :=
  match c with
  | .bytes bs => bs[i]?.map .byte
  | .text s => s.toList[i]?.map .char
  | .cells cs => cs[i]?.map .cell
  | .pairing x y => [x, y][i]?.map .cell

def elementAt (h : Heap) (c : Cell) (offset : Nat) : Except Fault Item := do
  let (b, i) ← checked h c
  let pos := addOffset i offset
  match item? b.contents pos with
  | some item => return item
  | none => throw (.outOfRange pos b.length)

/-- The buffer behind a cell, if it may be edited through the cell. -/
def ensureMutable (h : Heap) (c : Cell) : Except Fault BufferId := do
  let (id, _) ← parts c
  if c.isConst then throw .constView
  let _ ← h.writable id
  return id

def withIndex (c : Cell) (i : Nat) : Except Fault Cell := do
  let (b, _) ← parts c
  return { c with payload := .series b i }

/-- Moves the position, not past either end. -/
def skip (h : Heap) (c : Cell) (n : Int) : Except Fault Cell := do
  let (b, i) ← checked h c
  withIndex c (min (min (i + n).toNat maxIndex) b.length)

def head (c : Cell) : Except Fault Cell := withIndex c 0

def tail (h : Heap) (c : Cell) : Except Fault Cell := do
  let (b, _) ← checked h c
  withIndex c b.length

def textAt (h : Heap) (c : Cell) : Except Fault String := do
  match ← rest h c with
  | .text s => return s
  | _ => throw (.elementKind "texte" c.kind.name)

def bytesAt (h : Heap) (c : Cell) : Except Fault (List UInt8) := do
  match ← rest h c with
  | .bytes bs => return bs
  | _ => throw (.elementKind "octets" c.kind.name)

def cellsAt (h : Heap) (c : Cell) : Except Fault (List Cell) := do
  match ← rest h c with
  | .cells cs => return cs
  | _ => throw (.elementKind "cellules" c.kind.name)

end Series

end CellHeap
