import CellHeap.Buffer.Summary
import CellHeap.Exchange.Codec
import CellHeap.Operation
import CellHeap.Proofs.Context.Course
import CellHeap.Proofs.Heap.Frozen
import CellHeap.Proofs.Heap.Handle
import CellHeap.Proofs.Heap.Sweep
import CellHeap.Proofs.Map.Course
import CellHeap.Proofs.Refusal.Construction
import CellHeap.Proofs.Refusal.Mutation
import CellHeap.Proofs.Render.Descent
import CellHeap.Proofs.Render.Encoding
import CellHeap.Proofs.Render.Frozen
import CellHeap.Proofs.Render.Guard
import CellHeap.Proofs.Sequence.Grammar
import CellHeap.Proofs.Sequence.Transparency
import CellHeap.Proofs.Series.Edits
import CellHeap.Proofs.Session.Containment
import CellHeap.Proofs.Session.Workshop
import CellHeap.Proofs.Typing.Soundness
import CellHeap.Render.Basic
import CellHeap.Proofs.Map.Identity
import CellHeap.Proofs.Refusal.Gate
import CellHeap.Proofs.Map.Composite
import CellHeap.Proofs.Cell.Meta
import CellHeap.Proofs.Render.Texts
import CellHeap.Proofs.Series.Runes
import CellHeap.Proofs.Protection.Copies
import CellHeap.Proofs.Cell.Quotes
import CellHeap.Proofs.Context.Expiry
import CellHeap.Proofs.Series.Navigation
import CellHeap.Proofs.Text.Offset
