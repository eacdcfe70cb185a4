/-!
# Symbols

A symbol is the position of a spelling in the table that interned it. Spellings
are compared exactly, and a spelling keeps its first position. The table stands for
a hashed set that keeps the order of insertion, as a library outside this one
provides it: only what such a set answers is modelled, not how it finds it.
-/

set_option autoImplicit false

namespace CellHeap

structure Symbol where
  number : Nat
  deriving DecidableEq, Repr

def Symbol.text (s : Symbol) : String := "sym#" ++ toString s.number

structure SymbolTable where
  spellings : Array String := #[]
  deriving DecidableEq, Repr

namespace SymbolTable

def empty : SymbolTable := {}

def size (t : SymbolTable) : Nat := t.spellings.size

def lookup? (t : SymbolTable) (s : String) : Option Symbol :=
  (t.spellings.idxOf? s).map Symbol.mk

/-- The symbol of a spelling, appended to the table if it is new. -/
def intern (t : SymbolTable) (s : String) : Symbol × SymbolTable :=
  match t.lookup? s with
  | some sym => (sym, t)
  | none => (⟨t.size⟩, ⟨t.spellings.push s⟩)

/-- The spelling of a symbol; a symbol that the table does not hold has none. -/
def resolve (t : SymbolTable) (sym : Symbol) : String :=
  t.spellings[sym.number]?.getD ""

end SymbolTable

end CellHeap
