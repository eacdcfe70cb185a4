import CellHeap.Heap.Lifecycle

/-!
# Reachable buffers

The readable buffers that can be reached from given ones by following the
buffers named by contents. The walk ends on every graph: a buffer is entered
once, and only buffers present in the heap are entered.
-/

set_option autoImplicit false

namespace CellHeap.Heap

theorem buffer?_of_read {h : Heap} {id : BufferId} {b : Buffer} (hr : h.read id = .ok b) :
    h.buffer? id = some b := by
  simp only [read] at hr
  split at hr
  · rename_i b' hb
    split at hr
    · cases hr
    · cases hr; exact hb
  · cases hr

theorem mem_ids {h : Heap} {id : BufferId} {b : Buffer} (hb : h.buffer? id = some b) :
    id ∈ h.ids := by
  simp only [buffer?, Option.bind_eq_bind, Option.bind_eq_some_iff] at hb
  obtain ⟨slot, hslot, hgen⟩ := hb
  split at hgen
  · rename_i hg
    refine List.mem_filterMap.2 ⟨(slot, id.index), ?_, ?_⟩
    · rw [List.mem_zipIdx_iff_getElem?]
      simpa using hslot
    · simp [hgen, hg]
  · cases hgen

/-- The buffers present that a walk has not entered yet. -/
def unseen (h : Heap) (seen : List BufferId) : List BufferId :=
  h.ids.filter (· ∉ seen)

theorem unseen_cons_lt {h : Heap} {seen : List BufferId} {id : BufferId}
    (hid : id ∈ h.ids) (hs : id ∉ seen) :
    (h.unseen (id :: seen)).length < (h.unseen seen).length := by
  have he : h.unseen (id :: seen) = (h.unseen seen).filter (· ≠ id) := by
    simp [unseen, List.filter_filter]
  rw [he]
  refine List.length_filter_lt_length_iff_exists.2 ⟨id, ?_, by simp⟩
  simp [unseen, hid, hs]

/-- The walk with the buffers entered so far and those still to visit. -/
def walk (h : Heap) (seen : List BufferId) : List BufferId → List BufferId
  | [] => seen
  | id :: todo =>
    if _hs : id ∈ seen then walk h seen todo
    else
      match _hr : h.read id with
      | .ok b => walk h (id :: seen) (b.references ++ todo)
      | .error _ => walk h seen todo
termination_by todo => ((h.unseen seen).length, todo.length)
decreasing_by
  · exact Prod.Lex.right _ (by simp)
  · exact Prod.Lex.left _ _ (unseen_cons_lt (mem_ids (buffer?_of_read _hr)) _hs)
  · exact Prod.Lex.right _ (by simp)

/-- The readable buffers reachable from a buffer, itself included. -/
def reachable (h : Heap) (id : BufferId) : List BufferId := h.walk [] [id]

/-- Freezes a buffer and all that can be reached from it. -/
def freezeDeep (id : BufferId) : HeapM Unit := do
  let _ ← HeapM.ofRead (·.read id)
  let h ← get
  (h.reachable id).forM freeze

end CellHeap.Heap
