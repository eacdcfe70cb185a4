import CellHeap.Config
import CellHeap.Text.Utf8

/-!
# Inline bytes

A short run of bytes that lives in a cell itself.
-/

set_option autoImplicit false

namespace CellHeap

structure InlineBytes where
  bytes : List UInt8
  fits : bytes.length ≤ inlineCapacity
  deriving DecidableEq

namespace InlineBytes

def ofBytes? (bytes : List UInt8) : Option InlineBytes :=
  if h : bytes.length ≤ inlineCapacity then some ⟨bytes, h⟩ else none

def ofText? (s : String) : Option InlineBytes := ofBytes? (Text.utf8 s)

def size (b : InlineBytes) : Nat := b.bytes.length

def text? (b : InlineBytes) : Option String := Text.ofUtf8? b.bytes

theorem bytes_of_ofBytes? {bytes : List UInt8} {b : InlineBytes} (h : ofBytes? bytes = some b) :
    b.bytes = bytes := by
  simp only [ofBytes?] at h
  split at h
  · cases h; rfl
  · cases h

theorem text?_of_ofText? {s : String} {b : InlineBytes} (h : ofText? s = some b) :
    b.text? = some s := by
  rw [text?, bytes_of_ofBytes? h, Text.ofUtf8?_utf8]

end InlineBytes

end CellHeap
