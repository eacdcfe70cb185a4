import CellHeap.Cell.Basic

/-!
# Header operations

Changes of quoting, form, sigil, flags and binding. Each leaves the payload
alone and fails, instead of making a state that the kind does not admit.
-/

set_option autoImplicit false

namespace CellHeap

/-- Which antiforms a coercion accepts. -/
inductive Accept where
  | stable | any
  deriving DecidableEq, Repr

namespace Cell

def quotify (c : Cell) (n : Nat) : Except Fault Cell :=
  return { c with lift := ← c.lift.quotify n }

def unquotify (c : Cell) (n : Nat) : Except Fault Cell :=
  return { c with lift := ← c.lift.unquotify n }

def toAntiform (c : Cell) (accept : Accept) : Except Fault Cell := do
  if c.isQuoted then throw .quotedCoercion
  let some anti := c.kind.antiform? | throw (.noAntiform c.kind)
  if c.sigil.isSome then throw (.sigilOnAntiform c.kind)
  if !anti.isStable && accept == .stable then throw (.unstableAntiform c.kind)
  return { c with lift := .anti }

def toQuasiform (c : Cell) : Except Fault Cell := do
  if c.isQuoted then throw .quotedCoercion
  if c.kind.antiform?.isNone then throw (.noAntiform c.kind)
  if c.sigil.isSome then throw (.sigilOnAntiform c.kind)
  return { c with lift := .quasi }

/-- One step up: an antiform becomes a quasiform, anything else takes one more quote. -/
def toMeta (c : Cell) : Except Fault Cell :=
  if c.isAntiform then .ok { c with lift := .quasi } else c.quotify 1

/-- One step down: a quasiform becomes an antiform, anything else loses one quote. -/
def ofMeta (c : Cell) : Except Fault Cell :=
  if c.isQuasiform then c.toAntiform .any else c.unquotify 1

def setSigil (c : Cell) (s : Option Sigil) : Except Fault Cell := do
  if s.isSome then
    if !c.kind.isSigilable then throw (.notSigilable c.kind)
    if c.lift.base == .anti || c.lift.base == .quasi then throw (.sigilOnAntiform c.kind)
  return { c with sigil := s }

def setConst (c : Cell) (on : Bool) : Cell := { c with flags := { c.flags with const := on } }

def setNewline (c : Cell) (on : Bool) : Cell := { c with flags := { c.flags with newline := on } }

def setLocked (c : Cell) (on : Bool) : Cell := { c with flags := { c.flags with locked := on } }

def setBinding (c : Cell) (b : Option Binding) : Except Fault Cell := do
  if b.isSome && !c.kind.isBindable then throw (.notBindable c.kind)
  return { c with binding := b }

end Cell

end CellHeap
