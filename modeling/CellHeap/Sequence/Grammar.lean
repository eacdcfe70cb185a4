import CellHeap.Heap.Basic

/-!
# The grammar of sequences

A tuple, chain or path has at least two elements, all bare. Blanks stand only at
the ends and not at both, spellings of words hold no delimiter, and a sequence
may stand only in one that binds more loosely: a tuple in a chain, a tuple or a
chain in a path.
-/

set_option autoImplicit false

namespace CellHeap.Sequence

def mayNest (outer inner : Kind) : Bool :=
  match outer, inner with
  | .path, .chain | .path, .tuple | .chain, .tuple => true
  | _, _ => false

def isDelimiter (c : Char) : Bool := c == '/' || c == ':' || c == '.'

/-- What speaks against an element at position `i` of `n`. -/
def objection? (h : Heap) (outer : Kind) (i n : Nat) (c : Cell) : Option Objection :=
  if !c.isBare then some .notPlain
  else match c.kind with
    | .blank => if i ≠ 0 ∧ i + 1 ≠ n then some .interiorBlank else none
    | .word =>
      if ((c.symbol?.map h.spelling).getD "").toList.any isDelimiter then some .illegalSpelling
      else none
    | .integer | .rune | .text | .tag | .block | .group | .fence => none
    | .tuple | .chain | .path => if mayNest outer c.kind then none else some (.nesting c.kind)
    | k => some (.kind k)

/-- The first element that is objected to, counted from `i`. -/
def firstObjection? (h : Heap) (outer : Kind) (n : Nat) : Nat → List Cell → Option (Nat × Objection)
  | _, [] => none
  | i, c :: cs =>
    match objection? h outer i n c with
    | some why => some (i, why)
    | none => firstObjection? h outer n (i + 1) cs

def hasBlankEnds (elements : List Cell) : Bool :=
  (elements.head?.map Cell.isBlank).getD false && (elements.getLast?.map Cell.isBlank).getD false

def validate (h : Heap) (kind : Kind) (elements : List Cell) : Except Rejection Unit :=
  let n := elements.length
  if !kind.isSequence then .error (.notSequence kind)
  else if n < 2 then .error (.tooShort n)
  else match firstObjection? h kind n 0 elements with
    | some (i, why) => .error (.element i why)
    | none =>
      if elements.all Cell.isBlank then .error .allBlank
      else if hasBlankEnds elements then .error (.element (n - 1) .blankAtBothEnds)
      else .ok ()

end CellHeap.Sequence
