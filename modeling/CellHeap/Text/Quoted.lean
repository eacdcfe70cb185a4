import CellHeap.Cell.Inline
import CellHeap.Text.Unprinted

/-!
# Quoted text

Text between quotes, in which quotes, backslashes and common controls have short
escapes and other characters that are not printed stand as numbers.
-/

set_option autoImplicit false

namespace CellHeap

namespace Text

def hex (n : Nat) : String := String.ofList (Nat.toDigits 16 n)

def escape (c : Char) : String :=
  match c with
  | '"' => "\\\""
  | '\\' => "\\\\"
  | '\n' => "\\n"
  | '\r' => "\\r"
  | '\t' => "\\t"
  | '\x00' => "\\0"
  | c => if isUnprinted c then "\\u\x7b" ++ hex c.toNat ++ "\x7d" else String.singleton c

def quoted (s : String) : String := "\"" ++ String.join (s.toList.map escape) ++ "\""

end Text

/-- Inline bytes for a reader: quoted if they are text, else as numbers. -/
def InlineBytes.summary (b : InlineBytes) : String :=
  match b.text? with
  | some s => "Inline(" ++ Text.quoted s ++ ")"
  | none =>
    "Inline([" ++ String.intercalate ", " (b.bytes.map fun x => toString x.toNat) ++ "])"

end CellHeap
