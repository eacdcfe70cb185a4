import CellHeap.Proofs.Cell.Request
import CellHeap.Proofs.Context.Table
import CellHeap.Proofs.Heap.DeepFreeze
import CellHeap.Proofs.Heap.Inventory
import CellHeap.Proofs.Heap.Reserve
import CellHeap.Proofs.Map.Pairlist

/-!
# Refused mutations

A mutation that is refused leaves the heap and the cell in hand as they were. The
one trace that a refusal can leave is storage set aside. Most mutations make all
their checks before their one write. Two do not: growing edits set storage aside
before they look at the elements, and a new variable is written in two buffers,
where the second write cannot fail because a buffer with keys always has room for
slots.
-/

set_option autoImplicit false

namespace CellHeap

namespace Heap

variable {h h' : Heap} {id : BufferId} {b : Buffer}

theorem setBuffer_self (hb : h.buffer? id = some b) : h.setBuffer id b = h := by
  obtain ⟨slots, free, symbols, config⟩ := h
  have hid := buffer?_eq_some_iff.1 hb
  unfold setBuffer
  congr 1
  apply Array.ext_getElem?
  intro i
  rw [Array.getElem?_modify]
  by_cases hi : id.index = i
  · subst hi
    rw [if_pos rfl, hid]
    rfl
  · rw [if_neg hi]

/-- A buffer put back with other storage. -/
theorem trim_setBuffer_of_trim {b' : Buffer} (hb : h.buffer? id = some b) (ht : b'.trim = b.trim) :
    (h.setBuffer id b').trim = h.trim := by
  rw [trim_setBuffer, ht]
  apply setBuffer_self
  rw [buffer?_trim, hb]
  rfl

end Heap

namespace HeapM

variable {α β : Type} {h : Heap}

def Inert (x : HeapM α) (h : Heap) : Prop := ∀ e h', x h = .error e h' → h'.trim = h.trim

theorem Atomic.inert {x : HeapM α} (hx : Atomic x) (h : Heap) : Inert x h := by
  intro e h' he
  rw [hx h e h' he]

theorem inert_reading {f : Heap → Except Fault α} {g : α → HeapM β}
    (hg : ∀ a, f h = .ok a → Inert (g a) h) : Inert (ofRead f >>= g) h := by
  intro e h' hx
  cases hf : f h with
  | ok a =>
    rw [reading_of_ok hf] at hx
    exact hg a hf e h' hx
  | error e' =>
    rw [reading_of_error hf] at hx
    cases hx
    rfl

theorem inert_checked {x : Except Fault α} {f : α → HeapM β} (hf : ∀ a, x = .ok a → Inert (f a) h) :
    Inert (check x >>= f) h :=
  inert_reading hf

/-- A first part that changes nothing else, even if it succeeds. -/
theorem Inert.bind {x : HeapM α} {f : α → HeapM β} (hx : Inert x h)
    (hf : ∀ a g, x h = .ok a g → g.trim = h.trim ∧ Inert (f a) g) : Inert (x >>= f) h := by
  intro e h' he
  rcases of_bind_error he with hfirst | ⟨a, g, ha, hsecond⟩
  · exact hx e h' hfirst
  · obtain ⟨hg, hfa⟩ := hf a g ha
    exact (hfa e h' hsecond).trans hg

/-- A second part that cannot fail. -/
theorem Inert.bind_total {x : HeapM α} {f : α → HeapM β} (hx : Inert x h)
    (hf : ∀ a g, x h = .ok a g → ∃ b h', f a g = .ok b h') : Inert (x >>= f) h := by
  intro e h' he
  rcases of_bind_error he with hfirst | ⟨a, g, ha, hsecond⟩
  · exact hx e h' hfirst
  · obtain ⟨b, g', hb⟩ := hf a g ha
    cases hb.symm.trans hsecond

theorem Inert.map {x : HeapM α} (hx : Inert x h) (g : α → β) : Inert (g <$> x) h :=
  fun e h' he => hx e h' (of_map_error he)

theorem Inert.silent {x : HeapM Unit} (hx : Inert x h) : Inert (Operation.silent x) h :=
  hx.bind_total fun _ g _ => ⟨.done, g, rfl⟩

theorem atomic_mark (id : BufferId) (f : Buffer → Buffer) : Atomic (mark id f) := by
  intro h e h' hx
  unfold mark at hx
  cases hr : h.read id <;> rw [hr] at hx <;> cases hx
  rfl

end HeapM

open HeapM

namespace Heap

theorem atomic_decay (id : BufferId) : Atomic (decay id) := by
  intro h e h' hx
  unfold decay at hx
  cases hb : h.buffer? id with
  | none =>
    rw [hb] at hx
    cases hx
    rfl
  | some b =>
    rw [hb] at hx
    by_cases hl : b.liveness = .decayed <;> simp [hl] at hx

theorem atomic_release (id : BufferId) : Atomic (release id) := by
  intro h e h' hx
  unfold release at hx
  cases hb : h.buffer? id with
  | none =>
    rw [hb] at hx
    cases hx
    rfl
  | some b =>
    rw [hb] at hx
    cases hm : b.managed with
    | true =>
      simp only [hm, if_true] at hx
      cases hx
      rfl
    | false => simp [hm] at hx

theorem atomic_freezeDeep (id : BufferId) : Atomic (freezeDeep id) := by
  intro h e h' hx
  cases hr : h.isReadable id with
  | false =>
    rw [freezeDeep_of_unreadable hr] at hx
    cases hx
    rfl
  | true =>
    rw [freezeDeep_of_readable hr] at hx
    cases hx

end Heap

namespace Series

variable {h h' : Heap} {c : Cell}

theorem atomic_editAt (c : Cell) (f : Nat → Buffer → Except Fault Buffer) : Atomic (editAt c f) :=
  atomic_reading fun _ => atomic_reading fun _ => atomic_edit _ _

theorem reserve_apply (c : Cell) (n : Nat) (h : Heap) : reserve c n h =
    editAt c (fun _ b => .ok (b.reserve (max n h.config.minCapacity))) h :=
  rfl

theorem trim_of_reserve {n : Nat} {u : Unit} (hx : reserve c n h = .ok u h') :
    h'.trim = h.trim := by
  rw [reserve_apply] at hx
  obtain ⟨id, _, hx⟩ := of_reading hx
  obtain ⟨i, _, hx⟩ := of_reading hx
  obtain ⟨b, b', hw, hb', rfl⟩ := of_edit hx
  cases hb'
  exact Heap.trim_setBuffer_of_trim (Heap.buffer?_of_read (Heap.writable_eq_ok_iff.1 hw).1) rfl

/-- Storage is set aside, and then the edit is made or refused. -/
theorem inert_grow (c : Cell) (n : Nat) (f : Nat → Buffer → Except Fault Buffer) (h : Heap) :
    Inert (reserve c n >>= fun _ => editAt c f) h := by
  have hreserve : Inert (reserve c n) h := by
    intro e h' hx
    rw [reserve_apply] at hx
    exact (atomic_editAt c _).inert h e h' hx
  exact hreserve.bind fun _ g hx => ⟨trim_of_reserve hx, (atomic_editAt c f).inert g⟩

end Series

namespace Context

variable {h h' : Heap} {v k : BufferId} {b : Buffer}

/-- A buffer with keys holds slots, and one more slot fits. -/
theorem cells_of_keyed (hf : b.Formed) (hk : b.keylist = some k) :
    (∃ cs, b.contents = .cells cs) ∧ b.fixedSize = false := by
  have hkind := hf.keyed (by rw [hk]; rfl)
  have hsize := hf.fixedSize
  rw [hkind] at hsize
  refine ⟨?_, hsize⟩
  unfold Buffer.elementKind at hkind
  cases hc : b.contents with
  | cells cs => exact ⟨cs, rfl⟩
  | bytes | text | pairing =>
    rw [hc] at hkind
    cases hkind

/-- Once the keys have grown the slots grow, even if both stand in one buffer. -/
theorem pushSlot_after_key {u : Unit} {c d : Cell} (hw : h.writable v = .ok b)
    (hf : b.Formed) (hk : b.keylist = some k) (hx : edit k (·.pushSlot c) h = .ok u h') :
    ∃ h₂, edit v (·.pushSlot d) h' = .ok () h₂ := by
  obtain ⟨⟨cs, hcs⟩, hsize⟩ := cells_of_keyed hf hk
  obtain ⟨hr, hz⟩ := Heap.writable_eq_ok_iff.1 hw
  obtain ⟨hb, hl⟩ := Heap.read_eq_ok_iff.1 hr
  by_cases hvk : v = k
  · -- the keys and the slots stand in one buffer, which has just grown by the key
    subst hvk
    obtain ⟨b₀, b', hw₀, hb', rfl⟩ := of_edit hx
    cases hw.symm.trans hw₀
    rw [pushSlot_of_cells hcs hsize] at hb'
    cases hb'
    have hnew := (Heap.buffer?_setBuffer hb (b.withContents (.cells (cs ++ [c]))) v).trans
      (if_pos rfl)
    have hpush := pushSlot_of_cells (b := b.withContents (.cells (cs ++ [c]))) rfl hsize d
    exact ⟨_, edit_of_writable
      (Heap.writable_eq_ok_iff.2 ⟨Heap.read_eq_ok_iff.2 ⟨hnew, hl⟩, hz⟩) hpush⟩
  · have hsame := (Heap.edit_frame hx v hvk).trans hb
    exact ⟨_, edit_of_writable
      (Heap.writable_eq_ok_iff.2 ⟨Heap.read_eq_ok_iff.2 ⟨hsame, hl⟩, hz⟩)
      (pushSlot_of_cells hcs hsize d)⟩

theorem inert_append (hf : ∀ id b, h.buffer? id = some b → b.Formed) (c : Cell) (key : Symbol)
    (value : Cell) : Inert (append c key value) h := by
  refine inert_reading fun known _ => ?_
  cases known with
  | true => exact (atomic_modify c key _).inert h
  | false =>
    by_cases hc : c.isConst = true
    · simp only [hc, Bool.false_eq_true, if_false, if_true]
      exact (atomic_throw _).inert h
    · simp only [hc, Bool.false_eq_true, if_false]
      refine inert_checked fun _ _ => inert_checked fun v _ => ?_
      refine inert_reading fun k hk => inert_reading fun b hw => ?_
      obtain ⟨hr, _⟩ := Heap.writable_eq_ok_iff.1 hw
      have hkeys : b.keylist = some k := by
        unfold keylist at hk
        rw [hr] at hk
        cases hkeys : b.keylist with
        | none => simp [hkeys] at hk
        | some k' => simpa [hkeys] using hk
      apply ((atomic_edit k _).inert h).bind_total
      intro _ g hx
      obtain ⟨h₂, hpush⟩ := pushSlot_after_key hw (hf v b (Heap.buffer?_of_read hr)) hkeys hx
      exact ⟨(), h₂, hpush⟩

end Context

def Operation.mutates : Operation → Bool
  | appendCells .. | insertCells .. | changeCell .. | appendText .. | insertText ..
  | appendBytes .. | removeAt .. | truncateAt .. | truncate .. => true
  | writeVariable .. | writeVariableMeta .. | appendVariable .. | lockVariable .. => true
  | putEntry .. | removeEntry .. => true
  | manage .. | freeze .. | freezeDeep .. | decay .. | release .. | expireFrame .. => true
  | _ => false

theorem Operation.inert_perform {h : Heap} {op : Operation} (hop : op.mutates = true)
    (hf : ∀ id b, h.buffer? id = some b → b.Formed) : Inert op.perform h := by
  cases op with
  | appendCells c cs | insertCells c cs | appendText c s | insertText c s | appendBytes c bs =>
    exact (Series.inert_grow c _ _ h).silent
  | changeCell c n v | removeAt c n | truncateAt c =>
    exact ((Series.atomic_editAt c _).inert h).silent
  | truncate c n =>
    exact ((atomic_reading fun id => atomic_edit id _).inert h).silent
  | writeVariable c k v | writeVariableMeta c k v | lockVariable c k on =>
    exact ((Context.atomic_modify c k _).inert h).silent
  | appendVariable c k v => exact (Context.inert_append hf c k v).silent
  | putEntry m k v => exact ((Map.atomic_put m k v).inert h).silent
  | removeEntry m k => exact ((Map.atomic_remove m k).inert h).map _
  | manage id | freeze id => exact ((atomic_mark id _).inert h).silent
  | freezeDeep id => exact ((Heap.atomic_freezeDeep id).inert h).silent
  | decay id => exact ((Heap.atomic_decay id).inert h).silent
  | release id => exact ((Heap.atomic_release id).inert h).silent
  | expireFrame c => exact ((atomic_checked fun id => Heap.atomic_decay id).inert h).silent
  | _ => cases hop

inductive Touch where
  | header (request : Request)
  | assign (value : Cell)
  | assignMeta (value : Cell)
  | setLens (lens : Lens)
  | cacheLabel

def Touch.apply : Touch → Heap → Cell → Except Fault Cell
  | header r, _, c => r.apply c
  | assign value, _, c => Variable.assign c value
  | assignMeta value, _, c => Variable.assignMeta c value
  | setLens l, _, c => Frame.setLens c l
  | cacheLabel, h, c => Frame.cacheLabel h c

inductive Mutation where
  | onHeap (op : Operation) (hop : op.mutates = true)
  | onCell (touch : Touch)

/-- A mutation of a heap and the cell in hand; what was done before a fault stays done. -/
def Mutation.perform : Mutation → EStateM Fault (Heap × Cell) Answer
  | onHeap op _ => fun s =>
    match op.perform s.1 with
    | .ok a h' => .ok a (h', s.2)
    | .error e h' => .error e (h', s.2)
  | onCell t => fun s =>
    match t.apply s.1 s.2 with
    | .ok d => .ok .done (s.1, d)
    | .error e => .error e s

/-- After any run, a mutation that is refused leaves every slot, the free slots, the symbols and
the cell in hand as they were; only storage may have been set aside. -/
theorem Mutation.refused_unchanged (config : Config) (ops : List Operation) (m : Mutation)
    (c : Cell) {e : Fault} {h' : Heap} {c' : Cell}
    (hx : m.perform ((Heap.new config).run ops, c) = .error e (h', c')) :
    h'.trim = ((Heap.new config).run ops).trim ∧ c' = c := by
  cases m with
  | onHeap op hop =>
    have hinert := op.inert_perform hop fun _ _ hb => Heap.formed_of_run config ops hb
    cases hr : op.perform ((Heap.new config).run ops) with
    | ok a g =>
      simp only [perform, hr] at hx
      cases hx
    | error e' g =>
      simp only [perform, hr] at hx
      cases hx
      exact ⟨hinert e h' hr, rfl⟩
  | onCell t =>
    cases hr : t.apply ((Heap.new config).run ops) c with
    | ok d =>
      simp only [perform, hr] at hx
      cases hx
    | error e' =>
      simp only [perform, hr] at hx
      cases hx
      exact ⟨rfl, rfl⟩

/-- An antiform is refused by a list that has set storage aside for it already, and a variable by
an object whose keys are frozen. -/
theorem Mutation.refused_unchanged_late :
    let list := Cell.bare .block (.series ⟨0, 0⟩ 0)
    let object := Cell.bare .object (.context ⟨2, 0⟩)
    let ops := [.intern "a", .makeList .block [], .makeContext .object [], .freeze ⟨1, 0⟩]
    let h := (Heap.new {}).run ops
    let append := Mutation.onHeap (.appendCells list [.blank, .trash]) rfl
    let extend := Mutation.onHeap (.appendVariable object ⟨0⟩ list) rfl
    (∃ h', append.perform (h, list) = .error (.notAnElement .blank) (h', list) ∧ h' ≠ h ∧
      h'.trim = h.trim) ∧
    ∃ h', extend.perform (h, list) = .error (.frozen ⟨1, 0⟩) (h', list) ∧ h'.trim = h.trim := by
  intro list object ops h append extend
  have happend : append.perform (h, list) = .error (.notAnElement .blank) (_, list) := rfl
  have hextend : extend.perform (h, list) = .error (.frozen ⟨1, 0⟩) (_, list) := rfl
  exact ⟨⟨_, happend, by decide +kernel, (refused_unchanged {} ops append list happend).1⟩,
    ⟨_, hextend, (refused_unchanged {} ops extend list hextend).1⟩⟩

end CellHeap
