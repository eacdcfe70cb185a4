import CellHeap.Buffer.Basic
import CellHeap.Text.Offset

/-!
# Edits of buffers

Edits on the elements of one buffer. Positions count bytes, characters or cells.
An edit that fails returns no buffer, so nothing has to be undone.
-/

set_option autoImplicit false

namespace CellHeap.Buffer

/-- Replaces the contents; storage once set aside stays so. -/
def withContents (b : Buffer) (c : Contents) : Buffer :=
  { b with contents := c, reserved := max b.reserved c.extent }

/-- Sets storage aside for `n` more units. -/
def reserve (b : Buffer) (n : Nat) : Buffer :=
  { b with reserved := max b.reserved (b.contents.extent + n) }

/-- The cells of an array; a pairing does not count. -/
def array (b : Buffer) : Except Fault (List Cell) :=
  match b.contents with
  | .cells cs => .ok cs
  | _ => .error (b.mismatch .cells)

def checkResizable (b : Buffer) : Except Fault Unit :=
  if b.fixedSize then .error .fixedSize else .ok ()

/-- Every cell may stand in a list; otherwise the first that may not is blamed. -/
def checkElements (cs : List Cell) : Except Fault Unit :=
  match cs.find? (!·.isElement) with
  | some c => .error (.notAnElement c.kind)
  | none => .ok ()

def insertCells (b : Buffer) (i : Nat) (new : List Cell) : Except Fault Buffer := do
  b.checkResizable
  checkElements new
  let cs ← b.array
  if cs.length < i then throw (.outOfRange i cs.length)
  return b.withContents (.cells (cs.take i ++ new ++ cs.drop i))

/-- Replaces a cell by a copy of `c`; the slot keeps its protection. -/
def setCell (b : Buffer) (i : Nat) (c : Cell) : Except Fault Buffer := do
  checkElements [c]
  match b.contents with
  | .cells cs =>
    let some old := cs[i]? | throw (.outOfRange i cs.length)
    return b.withContents (.cells (cs.set i (c.copyInto old)))
  | .pairing x y =>
    match i with
    | 0 => return b.withContents (.pairing (c.copyInto x) y)
    | 1 => return b.withContents (.pairing x (c.copyInto y))
    | _ => throw (.outOfRange i 2)
  | _ => throw (b.mismatch .cells)

/-- Changes the slot at `i`; variables may hold stable antiforms, so the new cell is not
checked here. -/
def modifySlot (b : Buffer) (i : Nat) (f : Cell → Except Fault Cell) : Except Fault Buffer := do
  let cs ← b.array
  let some old := cs[i]? | throw (.outOfRange i cs.length)
  return b.withContents (.cells (cs.set i (← f old)))

/-- Adds a variable at the end. -/
def pushSlot (b : Buffer) (c : Cell) : Except Fault Buffer := do
  b.checkResizable
  let cs ← b.array
  return b.withContents (.cells (cs ++ [c]))

def insertBytes (b : Buffer) (i : Nat) (new : List UInt8) : Except Fault Buffer := do
  let bs ← b.bytes
  if bs.length < i then throw (.outOfRange i bs.length)
  return b.withContents (.bytes (bs.take i ++ new ++ bs.drop i))

def insertText (b : Buffer) (i : Nat) (new : String) : Except Fault Buffer := do
  let s ← b.text
  let (l, r) ← Text.splitAt s i
  return b.withContents (.text (l ++ new ++ r))

/-- Removes up to `n` elements from position `i` on. -/
def remove (b : Buffer) (i n : Nat) : Except Fault Buffer := do
  b.checkResizable
  if b.length < i then throw (.outOfRange i b.length)
  let stop := min (i + n) b.length
  match b.contents with
  | .bytes bs => return b.withContents (.bytes (bs.take i ++ bs.drop stop))
  | .cells cs => return b.withContents (.cells (cs.take i ++ cs.drop stop))
  | .text s =>
    let (l, _) ← Text.splitAt s i
    let (_, r) ← Text.splitAt s stop
    return b.withContents (.text (l ++ r))
  | .pairing _ _ => return b

/-- Keeps the first `n` elements; a shorter buffer stays as it is. -/
def truncate (b : Buffer) (n : Nat) : Except Fault Buffer :=
  if b.length ≤ n then .ok b else b.remove n (b.length - n)

end CellHeap.Buffer
