import CellHeap.Cell.Header

/-!
# Variables

A variable is a cell that may hold a stable antiform. Unstable antiforms enter
it one step up, as quasiforms. A protected variable refuses writes; protection
stays with the variable and does not follow its value.
-/

set_option autoImplicit false

namespace CellHeap.Variable

def checkWritable (slot : Cell) : Except Fault Unit :=
  if slot.isLocked then .error .slotProtected else .ok ()

def checkStable (value : Cell) : Except Fault Unit :=
  if value.isUnstable then .error (.unstableAntiform value.kind) else .ok ()

def assign (slot value : Cell) : Except Fault Cell := do
  checkWritable slot
  checkStable value
  return value.copyInto slot

/-- Stores the value one step up, so that antiforms of every sort can be stored. A value under as
many quotes as there can be has no step up. -/
def assignMeta (slot value : Cell) : Except Fault Cell := do
  checkWritable slot
  return (← value.toMeta).copyInto slot

def read (slot : Cell) : Cell := slot

def readMeta (slot : Cell) : Except Fault Cell := slot.ofMeta

/-- The slot of a variable made for a value. -/
def fresh (value : Cell) : Cell := value.copyInto .trash

end CellHeap.Variable
