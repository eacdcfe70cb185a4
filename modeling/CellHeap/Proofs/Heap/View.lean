import CellHeap.Context.Frame
import CellHeap.Map
import CellHeap.Pair
import CellHeap.Parameter
import CellHeap.Proofs.Sequence.Storage

/-!
# What is seen through a cell

A reader of a cell looks at the buffers that the cell names and, for a context,
at the list of its keys, and at nothing else of the heap. The cells it gives are
stored in those buffers or made from the cell itself.
-/

set_option autoImplicit false

namespace CellHeap

structure Heap.SameView (h h' : Heap) (c : Cell) : Prop where
  direct : ∀ id ∈ c.references, h'.sight id = h.sight id
  keys : ∀ id ∈ c.references, ∀ b k, h.read id = .ok b → b.keylist = some k →
    h'.sight k = h.sight k

section SameView

variable {h h' : Heap} {c : Cell}

theorem Heap.sameView_refl (h : Heap) (c : Cell) : h.SameView h c :=
  ⟨fun _ _ => rfl, fun _ _ _ _ _ _ => rfl⟩

theorem Series.checked_congr {α : Type} {f : Buffer × Nat → Except Fault α}
    (hv : h.SameView h' c) (hf : ∀ b b' i, b'.sight = b.sight → f (b', i) = f (b, i)) :
    (checked h' c >>= f) = (checked h c >>= f) := by
  unfold checked parts
  cases hp : c.payload with
  | series id i =>
    have hid := hv.direct id (by simp [Cell.references, hp])
    simp only [ok_bind, bind_assoc]
    apply Heap.reading_of_sight hid
    intro b b' hb
    simp only [Buffer.length_of_sight hb]
    by_cases hi : b.length < i
    · rw [if_pos hi, if_pos hi]
      rfl
    · rw [if_neg hi, if_neg hi]
      exact hf b b' i hb
  | _ => rfl

theorem Series.lengthAt_congr (hv : h.SameView h' c) : lengthAt h' c = lengthAt h c := by
  apply checked_congr hv
  intro b b' i hb
  simp only [Buffer.length_of_sight hb]

theorem Series.rest_congr (hv : h.SameView h' c) : rest h' c = rest h c := by
  apply checked_congr hv
  intro b b' i hb
  simp only [Buffer.contents_of_sight hb]

theorem Series.elementAt_congr (hv : h.SameView h' c) (offset : Nat) :
    elementAt h' c offset = elementAt h c offset := by
  apply checked_congr hv
  intro b b' i hb
  simp only [Buffer.contents_of_sight hb, Buffer.length_of_sight hb]

theorem Series.textAt_congr (hv : h.SameView h' c) : textAt h' c = textAt h c := by
  simp only [textAt, rest_congr hv]

theorem Series.bytesAt_congr (hv : h.SameView h' c) : bytesAt h' c = bytesAt h c := by
  simp only [bytesAt, rest_congr hv]

theorem Series.cellsAt_congr (hv : h.SameView h' c) : cellsAt h' c = cellsAt h c := by
  simp only [cellsAt, rest_congr hv]

theorem Strings.text_congr (hv : h.SameView h' c) : text h' c = text h c := by
  have hr : runeText h' c = runeText h c := by
    unfold runeText
    cases hp : c.payload with
    | series id i =>
      have hid := hv.direct id (by simp [Cell.references, hp])
      exact Heap.reading_of_sight hid fun _ _ => Buffer.text_of_sight
    | _ => rfl
  simp only [text, hr, Series.textAt_congr hv]

theorem Sequence.length_congr (hv : h.SameView h' c) : length h' c = length h c := by
  apply storage_congr storedLength _ hv.direct
  intro s hs
  have hlength : ∀ id, h'.sight id = h.sight id →
      (do return (← h'.read id).length) = (do return (← h.read id).length) := by
    intro id hid
    apply Heap.reading_of_sight hid
    intro b b' hb
    rw [Buffer.length_of_sight hb]
  cases s with
  | bytes | word => rfl
  | pair id => exact hlength id (hs id (Or.inl rfl))
  | array id => exact hlength id (hs id (Or.inr rfl))

theorem Sequence.elementAt_congr (hv : h.SameView h' c) (i : Nat) :
    elementAt h' c i = elementAt h c i := by
  have he : (storage c >>= fun s => storedAt h' s i) = (storage c >>= fun s => storedAt h s i) := by
    apply storage_congr (fun g s => storedAt g s i) _ hv.direct
    intro s hs
    simp only [storedAt, storedElements_congr s hs]
  simp only [elementAt, ← bind_assoc, he]

theorem Sequence.elements_congr (hv : h.SameView h' c) : elements h' c = elements h c := by
  have hf : elementAt h' c = elementAt h c := by
    ext1 i
    exact elementAt_congr hv i
  simp only [elements, length_congr hv, hf]

theorem Sequence.blankSide_congr (hv : h.SameView h' c) : blankSide h' c = blankSide h c := by
  simp only [blankSide, length_congr hv, elementAt_congr hv]

theorem Sequence.isRefinement_congr (hv : h.SameView h' c) :
    isRefinement h' c = isRefinement h c := by
  simp only [isRefinement, length_congr hv, blankSide_congr hv, elementAt_congr hv]

theorem Context.mem_references_of_varlist {v : BufferId} (hc : varlist c = .ok v) :
    v ∈ c.references := by
  unfold varlist at hc
  unfold Cell.references
  cases hp : c.payload with
  | context x =>
    rw [hp] at hc
    cases hc
    simp
  | frame x l =>
    rw [hp] at hc
    cases hc
    cases l <;> simp
  | _ =>
    rw [hp] at hc
    cases hc

theorem Context.keylist_eq_ok {v k : BufferId} (hk : keylist h v = .ok k) :
    ∃ b, h.read v = .ok b ∧ b.keylist = some k := by
  obtain ⟨b, hb, hk⟩ := bind_eq_ok_iff.1 hk
  split at hk <;> cases hk
  exact ⟨b, hb, ‹_›⟩

theorem Context.keyCells_congr {v : BufferId} (hv : h.SameView h' c) (hc : varlist c = .ok v) :
    keyCells h' v = keyCells h v := by
  have hid := mem_references_of_varlist hc
  have hkeylist : keylist h' v = keylist h v := by
    apply Heap.reading_of_sight (hv.direct v hid)
    intro b b' hb
    rw [Buffer.keylist_of_sight hb]
  unfold keyCells
  rw [hkeylist]
  cases hk : keylist h v with
  | error e => rfl
  | ok k =>
    obtain ⟨b, hr, hkey⟩ := keylist_eq_ok hk
    exact Heap.reading_of_sight (hv.keys v hid b k hr hkey) fun _ _ => Buffer.cells_of_sight

theorem Context.keys_congr (hv : h.SameView h' c) : keys h' c = keys h c := by
  unfold keys
  cases hc : varlist c with
  | error e => rfl
  | ok v => simp [keyCells_congr hv hc]

theorem Context.slot_congr (hv : h.SameView h' c) (key : Symbol) :
    slot h' c key = slot h c key := by
  unfold slot
  cases hc : varlist c with
  | error e => rfl
  | ok v =>
    simp only [ok_bind, position, position?, keyCells_congr hv hc]
    congr 1
    funext i
    apply Heap.reading_of_sight (hv.direct v (mem_references_of_varlist hc))
    intro b b' hb
    rw [Buffer.cells_of_sight hb]

theorem Context.read_congr (hv : h.SameView h' c) (key : Symbol) :
    read h' c key = read h c key := by
  simp only [read, slot_congr hv]

theorem Context.readMeta_congr (hv : h.SameView h' c) (key : Symbol) :
    readMeta h' c key = readMeta h c key := by
  simp only [readMeta, slot_congr hv]

theorem Map.pairs_congr (hv : h.SameView h' c) : pairs h' c = pairs h c := by
  unfold pairs pairlist
  cases hp : c.payload with
  | map id =>
    have hid := hv.direct id (by simp [Cell.references, hp])
    apply Heap.reading_of_sight hid
    intro b b' hb
    rw [Buffer.cells_of_sight hb]
  | _ => rfl

theorem Pair.parts_congr (hv : h.SameView h' c) : parts h' c = parts h c := by
  unfold parts
  cases hp : c.payload with
  | pairing id =>
    have hid := hv.direct id (by simp [Cell.references, hp])
    apply Heap.reading_of_sight hid
    intro b b' hb
    rw [Buffer.cells_of_sight hb]
  | _ => rfl

theorem Frame.lens_eq_ok {l : Lens} (hl : lens c = .ok l) : ∃ v, c.payload = .frame v l := by
  unfold lens at hl
  split at hl <;> cases hl
  exact ⟨_, ‹_›⟩

theorem Frame.label_congr (hv : h.SameView h' c) : label h' c = label h c := by
  unfold label lens
  cases hp : c.payload with
  | frame v l =>
    cases l with
    | phase p =>
      have hid := hv.direct p (by simp [Cell.references, hp])
      apply Heap.reading_of_sight hid
      intro b b' hb
      rw [Buffer.label_of_sight hb]
    | label s => rfl
  | _ => rfl

theorem Parameter.spec_congr (hv : h.SameView h' c) : spec h' c = spec h c := by
  unfold spec
  cases hp : c.payload with
  | parameter s m t f =>
    cases s with
    | some id =>
      have hid := hv.direct id (by simp [Cell.references, hp])
      exact Heap.reading_of_sight hid fun _ _ => Buffer.cells_of_sight
    | none => rfl
  | _ => rfl

end SameView

/-- A cell that readers of `c` can give: one stored in a buffer that `c` names, under any binding,
or a number, a blank or a word that a short sequence spells out. -/
inductive Heap.Within (h : Heap) (c : Cell) : Cell → Prop
  | stored {id : BufferId} {b : Buffer} {e : Cell} (hid : id ∈ c.references)
      (hb : h.read id = .ok b) (he : e ∈ b.stored) (binding : Option Binding) :
      Within h c { e with binding := binding }
  | integer (i : Int64) : Within h c (.integer i)
  | blank : Within h c .blank
  | word (s : Symbol) (binding : Option Binding) :
      Within h c { Cell.word s with binding := binding }

def Heap.Contains (h : Heap) (c d : Cell) : Prop :=
  ∃ id ∈ c.references, ∃ b, h.read id = .ok b ∧ d ∈ b.stored

section Within

variable {h : Heap} {c d : Cell}

theorem Heap.Contains.within (hd : h.Contains c d) : h.Within c d := by
  obtain ⟨id, hid, b, hb, hmem⟩ := hd
  exact .stored hid hb hmem d.binding

theorem Series.checked_eq_ok {b : Buffer} {i : Nat} (hc : checked h c = .ok (b, i)) :
    ∃ id, c.payload = .series id i ∧ h.read id = .ok b ∧ i ≤ b.length := by
  obtain ⟨⟨id, j⟩, hp, hc⟩ := bind_eq_ok_iff.1 hc
  obtain ⟨b', hr, hc⟩ := bind_eq_ok_iff.1 hc
  have hpay : c.payload = .series id j := by
    unfold parts at hp
    split at hp <;> cases hp
    assumption
  by_cases hlt : b'.length < j
  · simp [hlt] at hc
  · simp only [hlt, if_false] at hc
    cases hc
    exact ⟨id, hpay, hr, by omega⟩

theorem Series.contains_of_rest {cs : List Cell} (hc : rest h c = .ok (.cells cs))
    (hd : d ∈ cs) : h.Contains c d := by
  obtain ⟨⟨b, i⟩, hch, hc⟩ := bind_eq_ok_iff.1 hc
  obtain ⟨id, hp, hr, _⟩ := checked_eq_ok hch
  refine ⟨id, by simp [Cell.references, hp], b, hr, ?_⟩
  cases hb : b.contents with
  | bytes bs => simp [hb] at hc
  | text s =>
    simp only [hb] at hc
    obtain ⟨_, _, hc⟩ := bind_eq_ok_iff.1 hc
    cases hc
  | cells xs =>
    simp only [hb] at hc
    cases hc
    simpa [Buffer.stored, Contents.stored, hb] using List.mem_of_mem_drop hd
  | pairing x y =>
    simp only [hb] at hc
    cases hc
    simpa [Buffer.stored, Contents.stored, hb] using List.mem_of_mem_drop hd

theorem Sequence.inherit_binding (b : Option Binding) (e : Cell) :
    ∃ b', inherit b e = { e with binding := b' } := by
  unfold inherit
  split
  · exact ⟨b, rfl⟩
  · exact ⟨e.binding, rfl⟩

theorem Sequence.storage_eq_ok {s : Storage} (hs : storage c = .ok s) :
    c.payload = .sequence s := by
  unfold storage at hs
  split at hs <;> cases hs
  assumption

/-- An element is an integer, a blank or the word of a short form, or it stands in the buffer of
the sequence. -/
theorem Sequence.source_of_elementAt {i : Nat} (hd : elementAt h c i = .ok d) :
    (∃ x, d = .integer x) ∨ d = .blank ∨
    (∃ s side b, c.payload = .sequence (.word s side) ∧ d = { Cell.word s with binding := b }) ∨
    ∃ e b, h.Contains c e ∧ d = { e with binding := b } := by
  obtain ⟨s, hs, hd⟩ := bind_eq_ok_iff.1 hd
  obtain ⟨e, he, hd⟩ := bind_eq_ok_iff.1 hd
  obtain ⟨es, hse, he⟩ := bind_eq_ok_iff.1 he
  cases hd
  have hmem : e ∈ es := by
    split at he <;> cases he
    exact List.mem_of_getElem? ‹_›
  have hp := storage_eq_ok hs
  cases s with
  | bytes bs =>
    cases hse
    obtain ⟨x, _, hx⟩ := List.mem_map.1 hmem
    subst hx
    exact Or.inl ⟨_, rfl⟩
  | word s side =>
    cases hse
    have he : e = .blank ∨ e = .word s := by
      cases side <;> simpa [wordElements, or_comm] using hmem
    apply Or.inr
    rcases he with he | he <;> subst he
    · exact Or.inl rfl
    · exact Or.inr (Or.inl ⟨s, side, _, hp, rfl⟩)
  | pair id | array id =>
    obtain ⟨b, hr, hb⟩ := bind_eq_ok_iff.1 hse
    have hid : id ∈ c.references := by simp [Cell.references, hp]
    obtain ⟨b', hb'⟩ := inherit_binding c.binding e
    have hin : h.Contains c e := ⟨id, hid, b, hr, Buffer.cells_eq_ok hb ▸ hmem⟩
    exact Or.inr (Or.inr (Or.inr ⟨e, b', hin, hb'⟩))

theorem Sequence.within_of_elementAt {i : Nat} (hd : elementAt h c i = .ok d) : h.Within c d := by
  rcases source_of_elementAt hd with ⟨x, rfl⟩ | rfl | ⟨s, _, b, _, rfl⟩ | ⟨e, b, he, rfl⟩
  · exact .integer x
  · exact .blank
  · exact .word s b
  · obtain ⟨id, hid, a, ha, hmem⟩ := he
    exact .stored hid ha hmem b

theorem Pair.parts_eq_ok {x y : Cell} (hp : parts h c = .ok (x, y)) : ∃ id b,
    c.payload = .pairing id ∧ h.read id = .ok b ∧ b.stored = [x, y] := by
  unfold parts at hp
  split at hp
  · rename_i id hc
    obtain ⟨b, hr, hp⟩ := bind_eq_ok_iff.1 hp
    obtain ⟨cs, hb, hp⟩ := bind_eq_ok_iff.1 hp
    split at hp <;> cases hp
    exact ⟨id, b, hc, hr, Buffer.cells_eq_ok hb⟩
  · cases hp

theorem Pair.contains_of_parts {x y : Cell} (hp : parts h c = .ok (x, y)) (hd : d ∈ [x, y]) :
    h.Contains c d := by
  obtain ⟨id, b, hc, hr, hb⟩ := parts_eq_ok hp
  exact ⟨id, by simp [Cell.references, hc], b, hr, hb ▸ hd⟩

theorem Context.contains_of_read {key : Symbol} (hd : read h c key = .ok d) : h.Contains c d := by
  obtain ⟨s, hs, hd⟩ := bind_eq_ok_iff.1 hd
  cases hd
  obtain ⟨v, hc, hs⟩ := bind_eq_ok_iff.1 hs
  obtain ⟨i, _, hs⟩ := bind_eq_ok_iff.1 hs
  obtain ⟨b, hr, hs⟩ := bind_eq_ok_iff.1 hs
  obtain ⟨vars, hb, hs⟩ := bind_eq_ok_iff.1 hs
  split at hs <;> cases hs
  refine ⟨v, mem_references_of_varlist hc, b, hr, ?_⟩
  rw [Buffer.cells_eq_ok hb]
  exact List.mem_of_getElem? ‹_›

theorem Map.mem_of_toPairs {k v : Cell} {cs : List Cell} (hp : (k, v) ∈ toPairs cs) :
    k ∈ cs ∧ v ∈ cs := by
  fun_induction toPairs cs with
  | case1 k' v' rest ih =>
    rcases List.mem_cons.1 hp with hp | hp
    · cases hp
      simp
    · have hi := ih hp
      simp [hi]
  | case2 => cases hp

theorem Map.contains_of_pairs {k v : Cell} {ps : List (Cell × Cell)} (hp : pairs h c = .ok ps)
    (hkv : (k, v) ∈ ps) (hd : d ∈ [k, v]) : h.Contains c d := by
  obtain ⟨id, hc, hp⟩ := bind_eq_ok_iff.1 hp
  obtain ⟨b, hr, hp⟩ := bind_eq_ok_iff.1 hp
  obtain ⟨cs, hb, hp⟩ := bind_eq_ok_iff.1 hp
  cases hp
  have hid : id ∈ c.references := by
    unfold pairlist at hc
    split at hc <;> cases hc
    simp [Cell.references, ‹c.payload = _›]
  obtain ⟨hk, hv⟩ := mem_of_toPairs hkv
  rw [← Buffer.cells_eq_ok hb] at hk hv
  refine ⟨id, hid, b, hr, ?_⟩
  rcases List.mem_pair.1 hd with rfl | rfl
  · exact hk
  · exact hv

end Within

end CellHeap
