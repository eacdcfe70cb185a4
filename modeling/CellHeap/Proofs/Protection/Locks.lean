import CellHeap.Proofs.Heap.Lifetime

/-!
# The protection of the cells of a buffer

Protection is a flag of a cell, so a buffer has one bit for each of its cells.
A cell that is replaced leaves its bit to the new one, a cell that is put in
brings its own. Each edit is described by what it does to these bits, and a
computation by a relation between the bits before and after it.
-/

set_option autoImplicit false

namespace CellHeap

open HeapM

@[simp] theorem Cell.isLocked_copyInto (value slot : Cell) :
    (value.copyInto slot).isLocked = slot.isLocked := rfl

namespace Buffer

variable {b b' : Buffer} {i n : Nat}

def locks (b : Buffer) : List Bool := b.stored.map Cell.isLocked

theorem locks_of_cells {cs : List Cell} (hc : b.contents = .cells cs) :
    b.locks = cs.map Cell.isLocked := by
  rw [locks, stored_of_cells hc]

theorem set_of_getElem? {l : List Bool} {x : Bool} (hx : l[i]? = some x) : l.set i x = l := by
  obtain ⟨hi, rfl⟩ := List.getElem?_eq_some_iff.1 hx
  exact List.set_getElem_self hi

/-- A cell that is replaced leaves its protection to the new one. -/
theorem setCell_locks {c : Cell} (hx : b.setCell i c = .ok b') : b'.locks = b.locks := by
  obtain ⟨_, ⟨cs, old, hcs, hold, rfl⟩ | ⟨x, y, hxy, rfl | rfl⟩⟩ := setCell_eq_ok hx
  · have hbit : (cs.map Cell.isLocked)[i]? = some old.isLocked := by
      rw [List.getElem?_map, hold]
      rfl
    rw [locks_of_cells hcs, locks_of_cells (rfl : (b.withContents _).contents = _), List.map_set,
      Cell.isLocked_copyInto, set_of_getElem? hbit]
  · simp [locks, stored, Contents.stored, withContents, hxy]
  · simp [locks, stored, Contents.stored, withContents, hxy]

theorem insertCells_locks {new : List Cell} (hx : b.insertCells i new = .ok b') :
    b'.locks = b.locks.take i ++ new.map Cell.isLocked ++ b.locks.drop i := by
  obtain ⟨cs, hcs, _, _, rfl⟩ := insertCells_eq_ok hx
  rw [locks_of_cells hcs, locks_of_cells (rfl : (b.withContents _).contents = _)]
  simp [List.map_take, List.map_drop]

/-- Cells inserted at the end of a buffer follow all others. -/
theorem insertCells_length_locks {new : List Cell} (hx : b.insertCells b.length new = .ok b') :
    b'.locks = b.locks ++ new.map Cell.isLocked := by
  obtain ⟨cs, hcs, _⟩ := insertCells_eq_ok hx
  have hlen : b.locks.length = b.length := by
    simp [locks_of_cells hcs, length, hcs, Contents.length]
  rw [insertCells_locks hx, ← hlen, List.take_length, List.drop_length, List.append_nil]

theorem modifySlot_locks {f : Cell → Except Fault Cell} (hx : b.modifySlot i f = .ok b') :
    ∃ old new, f old = .ok new ∧ b.locks[i]? = some old.isLocked ∧
      b'.locks = b.locks.set i new.isLocked := by
  obtain ⟨cs, old, new, hcs, hold, hnew, rfl⟩ := modifySlot_eq_ok hx
  refine ⟨old, new, hnew, ?_, ?_⟩
  · rw [locks_of_cells hcs, List.getElem?_map, hold]
    rfl
  · rw [locks_of_cells hcs, locks_of_cells (rfl : (b.withContents _).contents = _), List.map_set]

/-- A slot whose new cell takes over the protection of the old one. -/
theorem modifySlot_locks_of_kept {f : Cell → Except Fault Cell}
    (hf : ∀ old new, f old = .ok new → new.isLocked = old.isLocked)
    (hx : b.modifySlot i f = .ok b') : b'.locks = b.locks := by
  obtain ⟨old, new, hnew, hold, hlocks⟩ := modifySlot_locks hx
  rw [hlocks, hf old new hnew, set_of_getElem? hold]

theorem pushSlot_locks {c : Cell} (hx : b.pushSlot c = .ok b') :
    b'.locks = b.locks ++ [c.isLocked] := by
  obtain ⟨cs, hcs, rfl⟩ := pushSlot_eq_ok hx
  rw [locks_of_cells hcs, locks_of_cells (rfl : (b.withContents _).contents = _), List.map_append]
  rfl

theorem insertText_locks {s : String} (hx : b.insertText i s = .ok b') : b'.locks = [] := by
  obtain ⟨_, _, _, rfl⟩ := insertText_eq_ok hx
  rfl

theorem insertBytes_locks {bs : List UInt8} (hx : b.insertBytes i bs = .ok b') :
    b'.locks = [] := by
  obtain ⟨_, _, rfl⟩ := insertBytes_eq_ok hx
  rfl

/-- What is left of a buffer after a removal stands in the old order. -/
theorem remove_locks (hx : b.remove i n = .ok b') : b'.locks.Sublist b.locks := by
  obtain ⟨_, _, _, rfl⟩ | ⟨_, _, _, rfl⟩ | ⟨cs, hcs, rfl⟩ | ⟨_, rfl⟩ := remove_eq_ok hx
  · exact List.nil_sublist _
  · exact List.nil_sublist _
  · rw [locks_of_cells hcs, locks_of_cells (rfl : (b.withContents _).contents = _)]
    apply List.Sublist.map
    have hcut : (cs.take i ++ cs.drop (min (i + n) cs.length)).Sublist
        (cs.take i ++ cs.drop i) := by
      apply List.Sublist.append_left
      rcases le_total i cs.length with hi | hi
      · exact List.drop_sublist_drop_left cs (le_min (Nat.le_add_right i n) hi)
      · rw [min_eq_right (Nat.le_trans hi (Nat.le_add_right i n)), List.drop_length]
        exact List.nil_sublist _
    rwa [List.take_append_drop] at hcut
  · exact List.Sublist.refl _

theorem truncate_locks (hx : b.truncate n = .ok b') : b'.locks.Sublist b.locks := by
  rcases truncate_eq_ok hx with rfl | hx
  · exact List.Sublist.refl _
  · exact remove_locks hx

end Buffer

/-- The contents that a buffer is given to start with, or is left with, are not protected. -/
theorem Contents.count_locked_empty (k : ElementKind) :
    ((empty k).stored.map Cell.isLocked).count true = 0 := by
  cases k <;> rfl

namespace Heap

variable {h h' : Heap} {id : BufferId} {b b' : Buffer}

def locks (h : Heap) (id : BufferId) : List Bool := ((h.buffer? id).map Buffer.locks).getD []

theorem locks_of_buffer? (hb : h.buffer? id = some b) : h.locks id = b.locks := by
  simp [locks, hb]

theorem locks_of_not_issued (hi : ¬ h.Issued id) : h.locks id = [] := by
  cases hb : h.buffer? id with
  | none => simp [locks, hb]
  | some b => exact absurd (issued_of_buffer? hb) hi

theorem locks_congr (hb : h'.buffer? id = h.buffer? id) : h'.locks id = h.locks id := by
  rw [locks, locks, hb]

theorem locks_setBuffer (hb : h.buffer? id = some b) (b' : Buffer) (j : BufferId) :
    (h.setBuffer id b').locks j = if j = id then b'.locks else h.locks j := by
  unfold locks
  rw [buffer?_setBuffer hb]
  by_cases hj : j = id <;> simp [hj]

theorem locks_vacate (hb : h.buffer? id = some b) (j : BufferId) :
    (h.vacate id).locks j = if j = id then [] else h.locks j := by
  unfold locks
  rw [buffer?_vacate hb]
  by_cases hj : j = id <;> simp [hj]

def Shifts (R : List Bool → List Bool → Prop) (h h' : Heap) : Prop :=
  h.Sound → h'.Sound ∧ ∀ id, R (h.locks id) (h'.locks id)

end Heap

namespace Protection

open Heap

def Pads (l l' : List Bool) : Prop := ∃ n, l' = l ++ List.replicate n false

def Thins (l l' : List Bool) : Prop := l'.count true ≤ l.count true

theorem Pads.refl (l : List Bool) : Pads l l := ⟨0, by simp⟩

theorem Pads.trans {l m n : List Bool} (h₁ : Pads l m) (h₂ : Pads m n) : Pads l n := by
  obtain ⟨i, rfl⟩ := h₁
  obtain ⟨j, rfl⟩ := h₂
  exact ⟨i + j, by rw [List.append_assoc, List.replicate_append_replicate]⟩

theorem Pads.thins {l l' : List Bool} (hp : Pads l l') : Thins l l' := by
  obtain ⟨n, rfl⟩ := hp
  simp [Thins, List.count_replicate]

theorem pads_of_unlocked {l new : List Bool} (hn : ∀ x ∈ new, x = false) : Pads l (l ++ new) :=
  ⟨new.length, by rw [← List.eq_replicate_of_mem hn]⟩

theorem thins_of_count_zero {l l' : List Bool} (hl : l'.count true = 0) : Thins l l' := by
  rw [Thins, hl]
  exact Nat.zero_le _

theorem count_unlocked {cs : List Cell} (hc : ∀ c ∈ cs, c.isLocked = false) :
    (cs.map Cell.isLocked).count true = 0 := by
  rw [List.count_eq_zero]
  intro hmem
  obtain ⟨c, hcs, hlock⟩ := List.mem_map.1 hmem
  rw [hc c hcs] at hlock
  cases hlock

section Tracing

variable {α : Type} {R : List Bool → List Bool → Prop} {x : HeapM α}

theorem shifts_setBuffer {h : Heap} {id : BufferId} {b b' : Buffer} (hrefl : ∀ l, R l l)
    (hb : h.buffer? id = some b) (hr : R b.locks b'.locks) : Shifts R h (h.setBuffer id b') := by
  intro hs
  refine ⟨sound_setBuffer hs hb b', fun j => ?_⟩
  rw [locks_setBuffer hb]
  by_cases hj : j = id
  · rw [if_pos hj, hj, locks_of_buffer? hb]
    exact hr
  · rw [if_neg hj]
    exact hrefl _

theorem traced_edit {id : BufferId} {f : Buffer → Except Fault Buffer} (hrefl : ∀ l, R l l)
    (hf : ∀ b b', f b = .ok b' → R b.locks b'.locks) : Traced (Shifts R) (edit id f) := by
  refine traced_step fun h => ?_
  cases hx : edit id f h with
  | ok u h' =>
    obtain ⟨b, b', hw, hb', rfl⟩ := of_edit hx
    rw [after_of_ok hx]
    exact Or.inr (shifts_setBuffer hrefl (buffer?_of_read (writable_eq_ok_iff.1 hw).1)
      (hf b b' hb'))
  | error e h' =>
    rw [after_of_error hx]
    exact Or.inl (atomic_edit id f h e h' hx)

theorem traced_mark {id : BufferId} {f : Buffer → Buffer} (hrefl : ∀ l, R l l)
    (hf : ∀ b, (f b).locks = b.locks) : Traced (Shifts R) (mark id f) := by
  refine traced_step fun h => ?_
  cases hr : h.read id with
  | ok b =>
    have ha : (mark id f).after h = h.setBuffer id (f b) := by simp [after, mark, hr]
    rw [ha]
    refine Or.inr (shifts_setBuffer hrefl (buffer?_of_read hr) ?_)
    rw [hf]
    exact hrefl _
  | error e => exact Or.inl (by simp [after, mark, hr])

theorem traced_place {b : Buffer} (hrefl : ∀ l, R l l) (hb : R [] b.locks) :
    Traced (Shifts R) (place b) := by
  refine traced_step fun h => Or.inr fun hs => ?_
  refine ⟨sound_place hs b, fun j => ?_⟩
  change R (h.locks j) ((h.place b).2.locks j)
  by_cases hj : j = (h.place b).1
  · rw [locks_of_buffer? ((buffer?_place hs b j).trans (if_pos hj)), hj,
      locks_of_not_issued (not_issued_place hs b)]
    exact hb
  · rw [locks_congr ((buffer?_place hs b j).trans (if_neg hj))]
    exact hrefl _

theorem traced_get : Traced (Shifts R) (get : HeapM Heap) := traced_of_unchanged fun _ => rfl

theorem traced_intern (hrefl : ∀ l, R l l) (s : String) : Traced (Shifts R) (intern s) :=
  traced_step fun _ => Or.inr fun hs => ⟨⟨hs.nodup, hs.mem_free⟩, fun _ => hrefl _⟩

theorem traced_silent {x : HeapM Unit} (hx : Traced (Shifts R) x) :
    Traced (Shifts R) (Operation.silent x) :=
  hx.then fun _ => traced_pure _

theorem traced_editAt {c : Cell} {f : Nat → Buffer → Except Fault Buffer} (hrefl : ∀ l, R l l)
    (hf : ∀ i b b', f i b = .ok b' → R b.locks b'.locks) :
    Traced (Shifts R) (Series.editAt c f) :=
  (traced_ofRead _).then fun _ => (traced_ofRead _).then fun p => traced_edit hrefl (hf p.2)

theorem traced_reserve (hrefl : ∀ l, R l l) (c : Cell) (n : Nat) :
    Traced (Shifts R) (Series.reserve c n) := by
  refine traced_get.then fun _ => traced_editAt hrefl ?_
  intro i b b' hx
  cases hx
  exact hrefl _

theorem traced_modify {c : Cell} {key : Symbol} {f : Cell → Except Fault Cell}
    (hrefl : ∀ l, R l l)
    (hf : ∀ i (b b' : Buffer), b.modifySlot i f = .ok b' → R b.locks b'.locks) :
    Traced (Shifts R) (Context.modify c key f) := by
  unfold Context.modify
  cases c.isConst with
  | true => exact traced_of_unchanged (after_throw _)
  | false =>
    refine (traced_check _).then fun v => (traced_ofRead _).then fun i => ?_
    exact traced_edit hrefl (hf i)

/-- A relation that holds of every step holds of the whole computation. -/
theorem shifts_of_traced (hrefl : ∀ l, R l l) (htrans : ∀ l m n, R l m → R m n → R l n)
    (hx : Traced (Shifts R) x) (h : Heap) : Shifts R h (x.after h) := by
  intro hs
  have hchain := hx h
  generalize x.after h = g at hchain ⊢
  induction hchain with
  | refl => exact ⟨hs, fun _ => hrefl _⟩
  | tail _ hstep ih =>
    obtain ⟨hs', hr⟩ := hstep ih.1
    exact ⟨hs', fun id => htrans _ _ _ (ih.2 id) (hr id)⟩

end Tracing

end Protection

end CellHeap
