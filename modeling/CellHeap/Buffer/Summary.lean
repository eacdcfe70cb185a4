import CellHeap.Buffer.Basic
import CellHeap.Text.Quoted

/-!
# Summaries of buffers

One line about the contents of a buffer. Text of more than 32 bytes shows its
first 32 characters.
-/

set_option autoImplicit false

namespace CellHeap.Contents

def summary : Contents → String
  | .bytes bs => "Bytes(len=" ++ toString bs.length ++ ")"
  | .text s =>
    if 32 < s.utf8ByteSize then
      "Text(" ++ Text.quoted (String.ofList (s.toList.take 32)) ++ "…)"
    else "Text(" ++ Text.quoted s ++ ")"
  | .cells cs => "Cells(len=" ++ toString cs.length ++ ")"
  | .pairing _ _ => "Pairing"

end CellHeap.Contents
