import CellHeap.Context.Frame
import CellHeap.Heap.Reach
import CellHeap.Heap.Word
import CellHeap.Map
import CellHeap.Pair
import CellHeap.Parameter
import CellHeap.Series.Edit
import CellHeap.Series.Make

/-!
# Operations

The operations that can change a heap, as data. A run performs operations one
after another; one that fails keeps what it had done and the run goes on.

A caller can also be lent a buffer to write to. Lending one changes nothing and a
buffer offers its borrower no way to change it in part, so there is no operation for
it; what a caller puts in place of a whole buffer that was lent is left out.
-/

set_option autoImplicit false

namespace CellHeap

inductive Operation where
  | intern (spelling : String)
  | allocate (kind : ElementKind) (capacity : Nat)
  | allocateWith (contents : Contents)
  | manage (id : BufferId)
  | freeze (id : BufferId)
  | freezeDeep (id : BufferId)
  | decay (id : BufferId)
  | release (id : BufferId)
  | sweep (marked : BufferId → Bool)
  | makeWord (spelling : String)
  | makeKeyword (spelling : String)
  | makeString (kind : Kind) (text : String)
  | makeRune (text : String)
  | makeBlob (bytes : List UInt8)
  | makeList (kind : Kind) (cells : List Cell)
  | makeSplice (cells : List Cell)
  | makeSequence (kind : Kind) (elements : List Cell) (compression : Compression)
  | makePair (x y : Cell)
  | makeContext (kind : Kind) (vars : List (Symbol × Cell))
  | makeFrame (vars : List (Symbol × Cell)) (lens : Lens)
  | makeMap (entries : List (Cell × Cell))
  | makePhase (label : Option Symbol) (body : List Cell)
  | makeParameter (mode : ParamClass) (types : Typeset) (flags : ParamFlags) (spec : List Cell)
  | appendCells (series : Cell) (cells : List Cell)
  | insertCells (series : Cell) (cells : List Cell)
  | changeCell (series : Cell) (offset : Nat) (value : Cell)
  | appendText (series : Cell) (text : String)
  | insertText (series : Cell) (text : String)
  | appendBytes (series : Cell) (bytes : List UInt8)
  | removeAt (series : Cell) (count : Nat)
  | truncateAt (series : Cell)
  | truncate (series : Cell) (length : Nat)
  | writeVariable (context : Cell) (key : Symbol) (value : Cell)
  | writeVariableMeta (context : Cell) (key : Symbol) (value : Cell)
  | appendVariable (context : Cell) (key : Symbol) (value : Cell)
  | lockVariable (context : Cell) (key : Symbol) (on : Bool)
  | expireFrame (frame : Cell)
  | putEntry (map key value : Cell)
  | removeEntry (map key : Cell)

/-- What an operation gives back. -/
inductive Answer where
  | done
  | cell (cell : Cell)
  | buffer (id : BufferId)
  | symbol (symbol : Symbol)
  | count (count : Nat)
  | truth (value : Bool)
  | rejected (why : Rejection)

namespace Operation

/-- An operation that gives nothing back. -/
def silent (x : HeapM Unit) : HeapM Answer := do
  x
  return .done

def perform : Operation → HeapM Answer
  | intern s => .symbol <$> Heap.intern s
  | allocate k n => .buffer <$> Heap.allocate k n
  | allocateWith c => .buffer <$> Heap.allocateWith c
  | manage id => silent (Heap.manage id)
  | freeze id => silent (Heap.freeze id)
  | freezeDeep id => silent (Heap.freezeDeep id)
  | decay id => silent (Heap.decay id)
  | release id => silent (Heap.release id)
  | sweep marked => .count <$> Heap.sweep marked
  | makeWord s => .cell <$> Word.make s
  | makeKeyword s => .cell <$> Word.makeKeyword s
  | makeString k s => .cell <$> Strings.make k s
  | makeRune s => .cell <$> Strings.makeRune s
  | makeBlob bs => .cell <$> Blob.make bs
  | makeList k cs => .cell <$> Lists.make k cs
  | makeSplice cs => .cell <$> Lists.makeSplice cs
  | makeSequence k es m => do
    match ← Sequence.make k es m with
    | .ok c => return .cell c
    | .error why => return .rejected why
  | makePair x y => .cell <$> Pair.make x y
  | makeContext k vars => .cell <$> Context.make k vars
  | makeFrame vars l => .cell <$> Frame.make vars l
  | makeMap es => .cell <$> Map.make es
  | makePhase l body => .buffer <$> Frame.makePhase l body
  | makeParameter m t f spec => .cell <$> Parameter.make m t f spec
  | appendCells c cs => silent (Series.appendCells c cs)
  | insertCells c cs => silent (Series.insertCells c cs)
  | changeCell c n v => silent (Series.changeCell c n v)
  | appendText c s => silent (Series.appendText c s)
  | insertText c s => silent (Series.insertText c s)
  | appendBytes c bs => silent (Series.appendBytes c bs)
  | removeAt c n => silent (Series.removeAt c n)
  | truncateAt c => silent (Series.truncateAt c)
  | truncate c n => silent (Series.truncate c n)
  | writeVariable c k v => silent (Context.write c k v)
  | writeVariableMeta c k v => silent (Context.writeMeta c k v)
  | appendVariable c k v => silent (Context.append c k v)
  | lockVariable c k on => silent (Context.setLocked c k on)
  | expireFrame c => silent (Frame.expire c)
  | putEntry m k v => silent (Map.put m k v)
  | removeEntry m k => .truth <$> Map.remove m k

/-- The heap after an operation, whether it succeeds or not. -/
def after (op : Operation) (h : Heap) : Heap :=
  match op.perform h with
  | .ok _ h' => h'
  | .error _ h' => h'

end Operation

/-- The heap after a run of operations. -/
def Heap.run (h : Heap) : List Operation → Heap
  | [] => h
  | op :: ops => (op.after h).run ops

@[simp] theorem Heap.run_nil (h : Heap) : h.run [] = h := rfl

@[simp] theorem Heap.run_cons (h : Heap) (op : Operation) (ops : List Operation) :
    h.run (op :: ops) = (op.after h).run ops := rfl

theorem Heap.run_append (h : Heap) (ops rest : List Operation) :
    h.run (ops ++ rest) = (h.run ops).run rest := by
  induction ops generalizing h with
  | nil => rfl
  | cons op ops ih => simp [ih]

end CellHeap
