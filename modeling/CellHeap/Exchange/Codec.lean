import CellHeap.Buffer.Basic
import CellHeap.Config
import CellHeap.Exchange.Datum
import CellHeap.FlagText

/-!
# Exchange of small values

How configurations, kinds, lifts and the like are written as plain data and read
back. Cases go by their titles, numbers are checked against their range, and
flag sets are texts.
-/

set_option autoImplicit false

namespace CellHeap.Exchange

/-- What a piece of data is read as. -/
inductive Schema where
  | config | kind | antiform | lift | quoteDepth | sigil | symbol | binding
  | elementKind | liveness | paramClass | typeset | cellFlags | bufferFlags | paramFlags
  deriving DecidableEq, Repr

/-- One of the listed values, by its title. -/
def case? {α : Type} (all : List α) (title : α → String) (d : Datum) : Option α := do
  let name ← d.caseName?
  all.find? (title · == name)

def wordLimit : Nat := Nat.pow 2 64

def halfWordLimit : Nat := Nat.pow 2 32

def writeConfig (c : Config) : Datum :=
  .record [("min_capacity", .whole c.minCapacity), ("initial_slots", .whole c.initialSlots),
    ("max_sequence_inline", .whole c.maxSequenceInline)]

/-- A number that may be missing, in which case it has a default. -/
def optional? (d : Option Datum) (default : Nat) : Option Nat :=
  match d with
  | none => some default
  | some d => d.natural? wordLimit

def configOf? (minCapacity initialSlots maxSequenceInline : Option Datum) : Option Config := do
  let base : Config := {}
  return {
    minCapacity := ← optional? minCapacity base.minCapacity
    initialSlots := ← optional? initialSlots base.initialSlots
    maxSequenceInline := ← optional? maxSequenceInline base.maxSequenceInline }

/-- Fields by name or in order; missing ones have their default, other ones are ignored. -/
def readConfig? : Datum → Option Config
  | .record fs =>
    configOf? (Datum.field? fs "min_capacity") (Datum.field? fs "initial_slots")
      (Datum.field? fs "max_sequence_inline")
  | .list xs => if xs.length ≤ 3 then configOf? xs[0]? xs[1]? xs[2]? else none
  | _ => none

def readQuoteDepth? (d : Datum) : Option QuoteDepth := do
  QuoteDepth.ofNat? (← d.natural? 256)

def writeLift : Lift → Datum
  | .anti => .text "Anti"
  | .plain => .text "Plain"
  | .quasi => .text "Quasi"
  | .quoted d q => .record [("Quoted", .record [("depth", .whole d.level), ("quasi", .bool q)])]

/-- The contents of a quoted lift go by their names, and both have to be there. -/
def readQuoted? (fields : List (String × Datum)) : Option Lift := do
  let depth ← readQuoteDepth? (← Datum.field? fields "depth")
  let quasi ← (← Datum.field? fields "quasi").bool?
  return .quoted depth quasi

def readLift? : Datum → Option Lift
  | .record [("Quoted", .record fields)] => readQuoted? fields
  | d => do
    match ← d.caseName? with
    | "Anti" => return .anti
    | "Plain" => return .plain
    | "Quasi" => return .quasi
    | _ => none

/-- Reads a flag set and writes it back. -/
def flags? (names : FlagText.Names) (d : Datum) : Option Datum := do
  return .text (FlagText.write names (← FlagText.read? names (← d.text?)))

/-- Reads data as the schema says and writes the value back in its usual form. -/
def normalize? (s : Schema) (d : Datum) : Option Datum :=
  match s with
  | .config => (readConfig? d).map writeConfig
  | .kind => (case? Kind.all Kind.title d).map (.text ·.title)
  | .antiform => (case? Antiform.all Antiform.title d).map (.text ·.title)
  | .lift => (readLift? d).map writeLift
  | .quoteDepth => (readQuoteDepth? d).map (.whole ·.level)
  | .sigil => (case? Sigil.all Sigil.title d).map (.text ·.title)
  | .symbol => (d.natural? halfWordLimit).map (.whole ·)
  | .binding =>
    ((d.natural? wordLimit).bind fun n => Binding.ofRaw? n.toUInt64).map (.whole ·.raw.toNat)
  | .elementKind => (case? ElementKind.all ElementKind.title d).map (.text ·.title)
  | .liveness => (case? Liveness.all Liveness.title d).map (.text ·.title)
  | .paramClass => (case? ParamClass.all ParamClass.title d).map (.text ·.title)
  | .typeset => (d.natural? halfWordLimit).map (.whole ·)
  | .cellFlags => flags? FlagText.cellNames d
  | .bufferFlags => flags? FlagText.bufferNames d
  | .paramFlags => flags? FlagText.parameterNames d

end CellHeap.Exchange
