import CellHeap.Heap.Lifecycle
import CellHeap.Series.Read

/-!
# Strings and runes

A string is a series of characters. A rune is kept in its cell if it fits and
else in a frozen buffer, which is read whole whatever the position of the cell.
-/

set_option autoImplicit false

namespace CellHeap.Strings

def make (kind : Kind) (text : String) : HeapM Cell :=
  return .bare kind (.series (← Heap.allocateManaged (.text text)) 0)

def makeRune (text : String) : HeapM Cell := do
  match Cell.rune? text with
  | some c => return c
  | none => return .bare .rune (.series (← Heap.allocateFrozen (.text text)) 0)

/-- The text of a rune. -/
def runeText (h : Heap) (c : Cell) : Except Fault String :=
  match c.payload with
  | .inline b =>
    match b.text? with
    | some s => .ok s
    | none => .error .invalidUtf8
  | .series id _ => do (← h.read id).text
  | _ => .error (.elementKind "texte" Kind.rune.name)

/-- The text of a rune, or of a string from its position on. -/
def text (h : Heap) (c : Cell) : Except Fault String :=
  if c.kind = .rune then runeText h c else Series.textAt h c

/-- The character of a text that has just one. -/
def char? (h : Heap) (c : Cell) : Except Fault (Option Char) := do
  match (← text h c).toList with
  | [ch] => return some ch
  | _ => return none

end CellHeap.Strings
