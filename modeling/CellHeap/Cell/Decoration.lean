/-!
# Decorations

Beside its quotes a cell may carry one sigil and one binding. A sigil decorates
words, lists and sequences. A binding is a handle of the binder, which cells
store and copy without looking inside; zero stands for no binding.
-/

set_option autoImplicit false

namespace CellHeap

inductive Sigil where
  | caret | pin | tie
  deriving DecidableEq, Repr

namespace Sigil

def all : List Sigil := [.caret, .pin, .tie]

def symbol : Sigil → Char
  | .caret => '^'
  | .pin => '@'
  | .tie => '$'

def title : Sigil → String
  | .caret => "Meta"
  | .pin => "Pin"
  | .tie => "Tie"

def ofChar? : Char → Option Sigil
  | '^' => some .caret
  | '@' => some .pin
  | '$' => some .tie
  | _ => none

/-- The two bits of an optional sigil; no sigil is 0. -/
def encode : Option Sigil → Nat
  | none => 0
  | some .caret => 1
  | some .pin => 2
  | some .tie => 3

/-- Reads the two low bits; higher bits do not count. -/
def decode (bits : Nat) : Option Sigil :=
  match bits % 4 with
  | 1 => some .caret
  | 2 => some .pin
  | 3 => some .tie
  | _ => none

end Sigil

structure Binding where
  raw : UInt64
  ne_zero : raw ≠ 0
  deriving DecidableEq

def Binding.ofRaw? (raw : UInt64) : Option Binding :=
  if h : raw = 0 then none else some ⟨raw, h⟩

end CellHeap
