import CellHeap.BufferId
import CellHeap.Cell.Decoration
import CellHeap.Cell.Inline
import CellHeap.Decimal.Binary64
import CellHeap.Lift
import CellHeap.Symbol

/-!
# Cells

A cell is a value of fixed size, copied freely: a kind, a lift, at most one
sigil, flags, a payload and at most one binding. The payload either holds its
data or names buffers of a heap; a cell never owns a buffer.
-/

set_option autoImplicit false

namespace CellHeap

/-- Where the blank of a two-element sequence of a blank and a word stands. -/
inductive Side where
  | leading | trailing
  deriving DecidableEq, Repr

/-- How the elements of a sequence are kept. -/
inductive Storage where
  | bytes (bytes : InlineBytes)
  | word (symbol : Symbol) (blank : Side)
  | pair (buffer : BufferId)
  | array (buffer : BufferId)
  deriving DecidableEq

/-- What a frame shows of itself: the phase it runs, or a label once it does not run. -/
inductive Lens where
  | phase (buffer : BufferId)
  | label (symbol : Option Symbol)
  deriving DecidableEq, Repr

/-- How a parameter takes its argument. -/
inductive ParamClass where
  | normal | captured | literal
  deriving DecidableEq, Repr

def ParamClass.title : ParamClass → String
  | .normal => "Normal"
  | .captured => "Meta"
  | .literal => "Literal"

def ParamClass.all : List ParamClass := [.normal, .captured, .literal]

/-- The flags of a parameter; bits without a meaning are kept. -/
structure ParamFlags where
  bits : UInt8
  deriving DecidableEq, Repr

def ParamFlags.isRefinement (f : ParamFlags) : Bool := f.bits &&& 1 != 0

inductive Payload where
  | empty
  | integer (value : Int64)
  | decimal (value : Binary64)
  | inline (bytes : InlineBytes)
  | word (symbol : Symbol)
  | series (buffer : BufferId) (index : Nat)
  | sequence (storage : Storage)
  | pairing (buffer : BufferId)
  | context (varlist : BufferId)
  | frame (varlist : BufferId) (lens : Lens)
  | parameter (spec : Option BufferId) (mode : ParamClass) (types : Typeset) (flags : ParamFlags)
  | handle (address length : UInt64)
  | map (pairlist : BufferId)
  deriving DecidableEq

/-- Equality of payloads, numbers compared as numbers. -/
def Payload.equals : Payload → Payload → Bool
  | .decimal x, .decimal y => x.equals y
  | p, q => p == q

structure Flags where
  /-- The view is read-only, whatever the buffer admits. -/
  const : Bool := false
  /-- The variable refuses ordinary writes. -/
  locked : Bool := false
  /-- The cell holds no value. -/
  erased : Bool := false
  /-- Rendered on a line of its own. -/
  newline : Bool := false
  deriving DecidableEq, Repr

def Flags.none : Flags := {}

def Flags.bits (f : Flags) : Nat :=
  f.const.toNat + 2 * f.locked.toNat + 4 * f.erased.toNat + 8 * f.newline.toNat

structure Cell where
  kind : Kind
  lift : Lift := .plain
  sigil : Option Sigil := none
  flags : Flags := {}
  payload : Payload
  binding : Option Binding := none
  deriving DecidableEq

namespace Cell

/-- A plain cell without decoration. -/
def bare (kind : Kind) (payload : Payload) : Cell := { kind, payload }

def erased : Cell := { kind := .blank, payload := .empty, flags := { erased := true } }

def blank : Cell := bare .blank .empty

def trash : Cell := { blank with lift := .anti }

def comma : Cell := bare .comma .empty

def integer (i : Int64) : Cell := bare .integer (.integer i)

def decimal (d : Binary64) : Cell := bare .decimal (.decimal d)

def percent (d : Binary64) : Cell := bare .percent (.decimal d)

def word (s : Symbol) : Cell := bare .word (.word s)

/-- A rune short enough to live in the cell. -/
def rune? (s : String) : Option Cell :=
  (InlineBytes.ofText? s).map fun b => bare .rune (.inline b)

/-- A rune of one character, which always fits. -/
def runeChar (c : Char) : Cell := (rune? (String.singleton c)).getD (bare .rune (.inline ⟨[], by decide⟩))

def handle (address length : UInt64) : Cell := bare .handle (.handle address length)

def parameter (mode : ParamClass) (types : Typeset) (flags : ParamFlags) : Cell :=
  bare .parameter (.parameter none mode types flags)

def isReadable (c : Cell) : Bool := !c.flags.erased

def isConst (c : Cell) : Bool := c.flags.const

def isLocked (c : Cell) : Bool := c.flags.locked

def quoteDepth (c : Cell) : Nat := c.lift.depth

def isQuoted (c : Cell) : Bool := 0 < c.quoteDepth

def isAntiform (c : Cell) : Bool := c.lift == .anti

def isQuasiform (c : Cell) : Bool := c.lift == .quasi

/-- An antiform that no ordinary variable may hold. -/
def isUnstable (c : Cell) : Bool :=
  c.isAntiform && (c.kind.antiform?.map (!·.isStable)).getD false

/-- Whether a list may hold the cell. -/
def isElement (c : Cell) : Bool := !c.isAntiform

/-- Plain and without a sigil. -/
def isBare (c : Cell) : Bool := c.lift == .plain && c.sigil.isNone

def isBlank (c : Cell) : Bool := c.kind == .blank && c.lift == .plain

def integer? (c : Cell) : Option Int64 :=
  match c.payload with
  | .integer i => some i
  | _ => none

def decimal? (c : Cell) : Option Binary64 :=
  match c.payload with
  | .decimal d => some d
  | _ => none

def symbol? (c : Cell) : Option Symbol :=
  match c.payload with
  | .word s => some s
  | _ => none

/-- The address and the length of foreign data. -/
def handle? (c : Cell) : Option (UInt64 × UInt64) :=
  match c.payload with
  | .handle a n => some (a, n)
  | _ => none

/-- The buffers that the payload names. -/
def references (c : Cell) : List BufferId :=
  match c.payload with
  | .series b _ | .pairing b | .context b | .map b => [b]
  | .sequence (.pair b) | .sequence (.array b) => [b]
  | .frame v (.phase p) => [v, p]
  | .frame v (.label _) => [v]
  | .parameter (some spec) _ _ _ => [spec]
  | _ => []

/-- The value as it stands after a copy into `slot`: protection belongs to the slot, and only
the flags about viewing and layout travel with the value. -/
def copyInto (value slot : Cell) : Cell :=
  { value with
    flags := { const := value.flags.const, newline := value.flags.newline,
               locked := slot.flags.locked } }

/-- Equality of cells, numbers compared as numbers. -/
def equals (a b : Cell) : Bool :=
  a.kind == b.kind && a.lift == b.lift && a.sigil == b.sigil && a.flags == b.flags
    && a.payload.equals b.payload && a.binding == b.binding

end Cell

/-- Element-wise equality of lists of cells. -/
def cellsEqual : List Cell → List Cell → Bool
  | [], [] => true
  | a :: as, b :: bs => a.equals b && cellsEqual as bs
  | _, _ => false

end CellHeap
