import CellHeap.Decimal.Text
import CellHeap.Context.Frame
import CellHeap.Map
import CellHeap.Pair
import CellHeap.Render.Rendering
import CellHeap.Text.Quoted

/-!
# Rendering cells

The text of a cell. Series are rendered from their position on, sequences by
their elements. A list, context or map that contains itself is cut short at the
point of recursion. A rendering that meets released data ends there.

`level` renders one cell and leaves the cells inside it to a given renderer;
`upTo` repeats it to a given depth, and `render` takes a depth that suffices
unless a sequence contains itself through sequences alone.
-/

set_option autoImplicit false

namespace CellHeap.Render

open Rendering

def escape (c : Char) : List Char :=
  match c with
  | '"' => ['^', '"']
  | '^' => ['^', '^']
  | '\n' => ['^', '/']
  | c => [c]

/-- The text of a string of the given kind. -/
def stringText (kind : Kind) (s : String) : String :=
  match kind with
  | .file => "%" ++ s
  | .tag => "<" ++ s ++ ">"
  | .email | .url => s
  | _ => "\"" ++ String.ofList (s.toList.flatMap escape) ++ "\""

def hexByte (b : UInt8) : String :=
  String.ofList [(Nat.digitChar (b.toNat / 16)).toUpper, (Nat.digitChar (b.toNat % 16)).toUpper]

def bytesText (bs : List UInt8) : String :=
  "#\x7b" ++ String.join (bs.map hexByte) ++ "\x7d"

def opening : Kind → String
  | .group => "("
  | .fence => "\x7b"
  | _ => "["

def closing : Kind → String
  | .group => ")"
  | .fence => "\x7d"
  | _ => "]"

/-- Renders inside a buffer, unless the buffer is being rendered already. -/
def inside (stack : List BufferId) (id : BufferId) (f : List BufferId → Rendering) : Rendering :=
  if id ∈ stack then write "..." else f (id :: stack)

/-- What stands before the `i`-th cell of a list. -/
def gap (i : Nat) (c : Cell) : String :=
  if c.flags.newline then "\n" else if i = 0 then "" else " "

section Level

variable (h : Heap) (nested : List BufferId → Cell → Rendering) (stack : List BufferId)

def cells (cs : List Cell) : Rendering :=
  each (fun (c, i) => write (gap i c) >> nested stack c) cs.zipIdx

def series (c : Cell) (id : BufferId) : Rendering :=
  ofRead (Series.rest h c) fun
    | .text s => write (stringText c.kind s)
    | .bytes bs => write (bytesText bs)
    | .cells cs =>
      write (opening c.kind) >> inside stack id (cells nested · cs) >> write (closing c.kind)

/-- An element of a sequence; a blank is not written. -/
def element (c : Cell) (i : Nat) : Rendering :=
  ofRead (Sequence.elementAt h c i) fun e => if e.isBlank then write "" else nested stack e

def sequence (c : Cell) : Rendering :=
  ofRead (Sequence.length h c) fun n =>
    separated (String.singleton (c.kind.delimiter?.getD '/')) (element h nested stack c)
      (List.range n)

def pair (c : Cell) : Rendering :=
  ofRead (Pair.parts h c) fun (x, y) => nested stack x >> write "x" >> nested stack y

/-- A key of a context with its value. -/
def assignment (c : Cell) (key : Symbol) : Rendering :=
  write (h.spelling key ++ ": ") >> ofRead (Context.read h c key) (nested stack)

def assignments (c : Cell) : Rendering :=
  ofRead (Context.keys h c) (separated " " (assignment h nested stack c))

def context (c : Cell) (id : BufferId) : Rendering :=
  write ("#[" ++ c.kind.name ++ " [") >> inside stack id (assignments h nested · c) >> write "]]"

def entries (c : Cell) : Rendering :=
  ofRead (Map.pairs h c)
    (separated " " fun (k, v) => nested stack k >> write " " >> nested stack v)

def map (c : Cell) (id : BufferId) : Rendering :=
  write "#[map! [" >> inside stack id (entries h nested · c) >> write "]]"

def frame (c : Cell) : Rendering :=
  ofRead (Frame.label h c) fun s =>
    write ("#[frame! " ++ (s.map h.spelling).getD "~anonymous~" ++ "]")

def rune (c : Cell) : Rendering := write "#" >> ofRead (Strings.text h c) write

/-- The payload of a cell. -/
def body (c : Cell) : Rendering :=
  match c.payload with
  | .empty => write (if c.kind = .comma then "," else "_")
  | .integer i => write (toString i.toInt)
  | .decimal d =>
    write (if c.kind = .percent then Decimal.text d.timesHundred ++ "%" else Decimal.text d)
  | .word s => write (h.spelling s)
  | .inline b => if c.kind = .rune then rune h c else write b.summary
  | .series id _ => if c.kind = .rune then rune h c else series h nested stack c id
  | .sequence _ => sequence h nested stack c
  | .pairing _ => pair h nested stack c
  | .context id => context h nested stack c id
  | .frame _ _ => frame h c
  | .parameter _ _ _ _ => write "#[parameter!]"
  | .handle a n =>
    write ("#[handle! 0x" ++ Text.hex a.toNat ++ " " ++ toString n.toNat ++ "]")
  | .map id => map h nested stack c id

/-- The marks of antiforms and quasiforms, quoted or not. -/
def tilde (l : Lift) : String := if l.base = .anti ∨ l.base = .quasi then "~" else ""

def quotes (l : Lift) : String := String.ofList (List.replicate l.depth '\'')

def sigil (s : Option Sigil) : String := (s.map fun s => String.singleton s.symbol).getD ""

/-- A cell with its decoration; the cells inside it are rendered by `nested`. -/
def level (c : Cell) : Rendering :=
  if c.isReadable then
    write (quotes c.lift ++ tilde c.lift ++ sigil c.sigil) >> body h nested stack c
      >> write (tilde c.lift)
  else write "#[effacé]"

end Level

/-- Renders to a depth of at most `n` cells. -/
def upTo (h : Heap) : Nat → List BufferId → Cell → Rendering
  | 0, _, _ => ⟨"", some .tooDeep⟩
  | n + 1, stack, c => level h (upTo h n) stack c

/-- Between two guarded buffers a path enters each sequence buffer at most once, and it enters
each guarded buffer at most once. -/
def depthBound (h : Heap) : Nat := (h.slots.size + 2) * (h.slots.size + 2)

def render (h : Heap) (c : Cell) : Rendering := upTo h (depthBound h) [] c

/-- The text of a cell. -/
def mold (h : Heap) (c : Cell) : Except Halt String := (render h c).toExcept

end CellHeap.Render
