import CellHeap.Buffer.Edit
import CellHeap.Proofs.Heap.Arena

/-!
# Storage set aside does not show

How much storage a buffer has set aside decides nothing else. Two heaps that
differ only in it give the same outcomes to every computation built from checks,
reads of contents and edits of cells, and they still differ only in it afterwards.
-/

set_option autoImplicit false

namespace CellHeap

def Buffer.trim (b : Buffer) : Buffer := { b with reserved := 0 }

def Slot.trim (s : Slot) : Slot := { s with buffer := s.buffer.map Buffer.trim }

def Heap.trim (h : Heap) : Heap := { h with slots := h.slots.map Slot.trim }

namespace Heap

variable {h h' : Heap} {id : BufferId}

theorem buffer?_trim (h : Heap) (id : BufferId) :
    h.trim.buffer? id = (h.buffer? id).map Buffer.trim := by
  unfold buffer? trim
  cases hs : h.slots[id.index]? with
  | none => simp [hs]
  | some s =>
    by_cases hg : s.generation = id.generation <;> simp [hs, Slot.trim, hg]

theorem trim_setBuffer (h : Heap) (id : BufferId) (b : Buffer) :
    (h.setBuffer id b).trim = h.trim.setBuffer id b.trim := by
  unfold setBuffer trim
  congr 1
  ext i
  · simp
  · simp [Array.getElem_modify, Slot.trim]
    split <;> rfl

theorem trim_place (h : Heap) (b : Buffer) :
    (h.place b).1 = (h.trim.place b.trim).1 ∧ (h.place b).2.trim = (h.trim.place b.trim).2 := by
  unfold place trim
  cases hf : h.free with
  | nil => simp [Slot.trim]
  | cons i rest =>
    refine ⟨?_, ?_⟩
    · cases hs : h.slots[i]? <;> simp [hs, Slot.trim]
    · simp only [Heap.mk.injEq, and_true]
      ext j
      · simp
      · simp [Array.getElem_modify, Slot.trim]
        split <;> rfl

/-- Heaps that differ in storage set aside read alike. -/
theorem read_of_trim (ht : h.trim = h'.trim) (id : BufferId) :
    (∃ b b', h.read id = .ok b ∧ h'.read id = .ok b' ∧ b.trim = b'.trim) ∨
      h.read id = .error (.dataFreed id) ∧ h'.read id = .error (.dataFreed id) := by
  have hb := buffer?_trim h id
  rw [ht, buffer?_trim] at hb
  unfold read
  cases hx : h.buffer? id with
  | none =>
    rw [hx] at hb
    simp [Option.map_eq_none_iff.1 hb]
  | some b =>
    rw [hx] at hb
    obtain ⟨b', hx', he⟩ := Option.map_eq_some_iff.1 hb
    have hl : b'.liveness = b.liveness := congrArg (·.liveness) he
    rw [hx']
    by_cases hd : b.liveness = .decayed
    · simp [hl, hd]
    · simp [hl, hd, he]

theorem contents_of_trim (ht : h.trim = h'.trim) (id : BufferId) :
    h'.contents id = h.contents id := by
  unfold contents
  rcases read_of_trim ht id with ⟨b, b', hr, hr', he⟩ | ⟨hr, hr'⟩
  · have hc : b.contents = b'.contents := congrArg (·.contents) he
    rw [hr, hr', Except.map, Except.map, hc]
  · rw [hr, hr']

end Heap

namespace HeapM

variable {α β : Type}

inductive Alike : EStateM.Result Fault Heap α → EStateM.Result Fault Heap α → Prop
  | ok {a : α} {h h' : Heap} (hh : h.trim = h'.trim) : Alike (.ok a h) (.ok a h')
  | error {e : Fault} {h h' : Heap} (hh : h.trim = h'.trim) : Alike (.error e h) (.error e h')

def Blind (x : HeapM α) : Prop := ∀ h h', h.trim = h'.trim → Alike (x h) (x h')

theorem blind_pure (a : α) : Blind (pure a : HeapM α) := fun _ _ hh => .ok hh

theorem Alike.bind {x x' : HeapM α} {f : α → HeapM β} {h h' : Heap} (hx : Alike (x h) (x' h'))
    (hf : ∀ a, Blind (f a)) : Alike ((x >>= f) h) ((x' >>= f) h') := by
  rw [bind_apply, bind_apply]
  generalize x h = r at hx
  generalize x' h' = r' at hx
  cases hx with
  | ok hh => exact hf _ _ _ hh
  | error hh => exact .error hh

theorem Blind.then {x : HeapM α} {f : α → HeapM β} (hx : Blind x) (hf : ∀ a, Blind (f a)) :
    Blind (x >>= f) :=
  fun h h' hh => (hx h h' hh).bind hf

theorem blind_ofRead {f : Heap → Except Fault α} (hf : ∀ h h', h.trim = h'.trim → f h' = f h) :
    Blind (ofRead f) := by
  intro h h' hh
  unfold ofRead
  rw [hf h h' hh]
  cases f h with
  | ok a => exact .ok hh
  | error e => exact .error hh

theorem blind_check (x : Except Fault α) : Blind (check x) := blind_ofRead fun _ _ _ => rfl

theorem blind_edit {id : BufferId} {f : Buffer → Except Fault Buffer}
    (hf : ∀ b b' : Buffer, b.trim = b'.trim → (f b).map Buffer.trim = (f b').map Buffer.trim) :
    Blind (edit id f) := by
  intro h h' hh
  unfold edit Heap.writable
  rcases Heap.read_of_trim hh id with ⟨b, b', hr, hr', he⟩ | ⟨hr, hr'⟩
  · have hz : b.frozen = b'.frozen := congrArg (·.frozen) he
    rw [hr, hr']
    simp only [ok_bind, hz]
    by_cases hfrozen : b'.frozen = true
    · simp only [hfrozen, if_true, throw_eq_error, error_bind]
      exact .error hh
    · simp only [hfrozen, Bool.false_eq_true, if_false, pure_eq_ok, ok_bind]
      have hb := hf b b' he
      cases hx : f b with
      | ok y =>
        cases hx' : f b' with
        | ok y' =>
          rw [hx, hx'] at hb
          apply Alike.ok
          rw [Heap.trim_setBuffer, Heap.trim_setBuffer, hh, Except.ok.inj hb]
        | error e =>
          rw [hx, hx'] at hb
          cases hb
      | error e =>
        cases hx' : f b' with
        | ok y' =>
          rw [hx, hx'] at hb
          cases hb
        | error e' =>
          rw [hx, hx'] at hb
          cases hb
          exact .error hh
  · rw [hr, hr']
    exact .error hh

theorem blind_forM {f : α → HeapM Unit} (xs : List α) (hf : ∀ a ∈ xs, Blind (f a)) :
    Blind (xs.forM f) := by
  induction xs with
  | nil => exact blind_pure ()
  | cons a xs ih =>
    exact (hf a (by simp)).then fun _ => ih fun b hb => hf b (by simp [hb])

/-- Buffers that differ in storage set aside are placed alike. -/
theorem alike_place {b b' : Buffer} (hb : b.trim = b'.trim) (h : Heap) :
    Alike (place b h) (place b' h) := by
  obtain ⟨hid, hh⟩ := h.trim_place b
  obtain ⟨hid', hh'⟩ := h.trim_place b'
  have he : (h.place b).1 = (h.place b').1 := by rw [hid, hid', hb]
  show Alike (.ok (h.place b).1 (h.place b).2) (.ok (h.place b').1 (h.place b').2)
  rw [he]
  exact .ok (by rw [hh, hh', hb])

end HeapM

namespace Buffer

variable {b b' : Buffer}

theorem eq_of_trim (hb : b.trim = b'.trim) : b' = { b with reserved := b'.reserved } := by
  cases b
  cases b'
  simp_all [trim]

theorem trim_setCell (hb : b.trim = b'.trim) (i : Nat) (c : Cell) :
    (b.setCell i c).map trim = (b'.setCell i c).map trim := by
  rw [eq_of_trim hb]
  rcases b with ⟨contents⟩
  unfold setCell
  cases checkElements [c] with
  | error e => rfl
  | ok u =>
    cases contents with
    | cells cs =>
      cases hi : cs[i]? with
      | none => simp [hi]
      | some old =>
        simp [hi]
        rfl
    | pairing x y => rcases i with _ | _ | i <;> rfl
    | _ => rfl

theorem trim_insertCells (hb : b.trim = b'.trim) (new : List Cell) :
    (b.insertCells b.length new).map trim = (b'.insertCells b'.length new).map trim := by
  rw [eq_of_trim hb]
  rcases b with ⟨contents, frozen, fixedSize⟩
  unfold insertCells
  cases fixedSize with
  | true => rfl
  | false =>
    cases checkElements new with
    | error e => rfl
    | ok u =>
      cases contents with
      | cells cs => simp [checkResizable, array, length, Contents.length]; rfl
      | _ => rfl

end Buffer

end CellHeap
