import CellHeap.Fault

/-!
# Renderings

A rendering is the text written so far together with the reason why it ends
early, if it does. Renderings are written one after another; after one that ends
early nothing more is written.
-/

set_option autoImplicit false

namespace CellHeap

/-- Why a rendering ends early. -/
inductive Halt where
  | fault (fault : Fault)
  | tooDeep
  deriving DecidableEq, Repr

structure Rendering where
  text : String
  halt : Option Halt := none
  deriving DecidableEq, Repr

namespace Rendering

def write (s : String) : Rendering := ⟨s, none⟩

/-- Writes `b` after `a`, unless `a` ends early; then `b` is not even computed. -/
def andThen (a : Rendering) (b : Unit → Rendering) : Rendering :=
  match a.halt with
  | some _ => a
  | none =>
    let r := b ()
    ⟨a.text ++ r.text, r.halt⟩

instance : AndThen Rendering := ⟨andThen⟩

theorem andThen_of_none {a : Rendering} (b : Rendering) (h : a.halt = none) :
    (a >> b) = ⟨a.text ++ b.text, b.halt⟩ := by
  simp [HAndThen.hAndThen, AndThen.andThen, andThen, h]

theorem andThen_of_some {a : Rendering} (b : Rendering) {e : Halt} (h : a.halt = some e) :
    (a >> b) = a := by
  simp [HAndThen.hAndThen, AndThen.andThen, andThen, h]

@[simp] theorem write_andThen_write (s t : String) : (write s >> write t) = write (s ++ t) := rfl

/-- One rendering for each item, one after another. -/
def each {α : Type} (f : α → Rendering) : List α → Rendering
  | [] => write ""
  | a :: as => f a >> each f as

/-- Renders what was read, or ends with its fault. -/
def ofRead {α : Type} (x : Except Fault α) (f : α → Rendering) : Rendering :=
  match x with
  | .ok a => f a
  | .error e => ⟨"", some (.fault e)⟩

/-- One rendering for each item, with a separator between them. -/
def separated {α : Type} (sep : String) (f : α → Rendering) : List α → Rendering
  | [] => write ""
  | [a] => f a
  | a :: as => f a >> write sep >> separated sep f as

/-- The whole text, unless the rendering ends early. -/
def toExcept (r : Rendering) : Except Halt String :=
  match r.halt with
  | some e => .error e
  | none => .ok r.text

end Rendering

end CellHeap
