import CellHeap.Text.Blank

/-!
# Flag sets as text

A set of at most eight flags is a byte; the text of a set lists the names of its
flags in the order of their bits, and bits without a name as one hexadecimal
number at the end. Reading accepts names and hexadecimal numbers in any order,
repeated or not, between bars.
-/

set_option autoImplicit false

namespace CellHeap.FlagText

/-- The names of the flags, lowest bit first. -/
abbrev Names := List String

def cellNames : Names := ["CONST", "PROTECTED", "UNREADABLE", "NEWLINE_BEFORE"]

def bufferNames : Names := ["FROZEN", "FIXED_SIZE", "MANAGED"]

def parameterNames : Names := ["REFINEMENT", "ENDABLE", "CONST"]

/-- The pieces between the bars of a text; there is always one. -/
def pieces : List Char → List (List Char)
  | [] => [[]]
  | c :: cs =>
    if c = '|' then [] :: pieces cs
    else match pieces cs with
      | p :: ps => (c :: p) :: ps
      | [] => [[c]]

def hexDigit? (c : Char) : Option Nat :=
  if '0' ≤ c ∧ c ≤ '9' then some (c.toNat - '0'.toNat)
  else if 'a' ≤ c ∧ c ≤ 'f' then some (c.toNat - 'a'.toNat + 10)
  else if 'A' ≤ c ∧ c ≤ 'F' then some (c.toNat - 'A'.toNat + 10)
  else none

/-- A byte in hexadecimal; a plus sign may stand before the digits. -/
def hexByte? (cs : List Char) : Option UInt8 := do
  let ds := match cs with
    | '+' :: r => r
    | _ => cs
  if ds.isEmpty then failure
  let n ← ds.foldlM (fun n c => return n * 16 + (← hexDigit? c)) 0
  if n < 256 then return n.toUInt8 else failure

def bitOf? (names : Names) (cs : List Char) : Option UInt8 :=
  (names.idxOf? (String.ofList cs)).map fun i => (Nat.pow 2 i).toUInt8

/-- One piece: a number after `0x`, else a name. -/
def piece? (names : Names) (cs : List Char) : Option UInt8 :=
  match Text.trim cs with
  | [] => none
  | '0' :: 'x' :: r => hexByte? r
  | p => bitOf? names p

def read? (names : Names) (s : String) : Option UInt8 :=
  let cs := s.toList
  if (Text.trim cs).isEmpty then some 0
  else (pieces cs).foldlM (fun set p => return set ||| (← piece? names p)) 0

def write (names : Names) (set : UInt8) : String :=
  let n := set.toNat
  let known := names.zipIdx.filterMap fun (name, i) => if n.testBit i then some name else none
  let rest := n - n % Nat.pow 2 names.length
  let tail := if rest = 0 then [] else ["0x" ++ String.ofList (Nat.toDigits 16 rest)]
  String.intercalate " | " (known ++ tail)

end CellHeap.FlagText
