import CellHeap.Buffer.Edit
import CellHeap.Cell.Header
import CellHeap.Proofs.Outcome

/-!
# What an edit of a buffer can do

Each edit replaces the contents by contents of the same kind and leaves every
mark of the buffer alone. The cells of the new contents were there before, or
were given to the edit, possibly with the header that a variable gives them.
-/

set_option autoImplicit false

namespace CellHeap

def Contents.stored : Contents → List Cell
  | .cells cs => cs
  | .pairing x y => [x, y]
  | _ => []

theorem Contents.blank_of_mem_empty {k : ElementKind} {c : Cell} (hc : c ∈ (empty k).stored) :
    c = .blank := by
  cases k <;> simp [empty, stored] at hc
  exact hc

namespace Buffer

def stored (b : Buffer) : List Cell := b.contents.stored

theorem cells_eq_ok {b : Buffer} {cs : List Cell} (h : b.cells = .ok cs) : b.stored = cs := by
  simp only [cells] at h
  split at h <;> cases h <;> simp_all [stored, Contents.stored]

theorem references_eq (b : Buffer) : b.references =
    b.keylist.toList ++ (b.stored.filter Cell.isReadable).flatMap Cell.references := by
  simp only [references, cells, stored]
  cases b.contents <;> simp [Contents.stored]

theorem mem_references {b : Buffer} {id : BufferId} : id ∈ b.references ↔
    b.keylist = some id ∨ ∃ c ∈ b.stored, c.isReadable = true ∧ id ∈ c.references := by
  simp only [references_eq, List.mem_append, Option.mem_toList, List.mem_flatMap,
    List.mem_filter, and_assoc]

inductive Supplied (given kept : List Cell) : Cell → Prop
  | kept {c : Cell} (hc : c ∈ kept) : Supplied given kept c
  | locked {c : Cell} (hc : c ∈ kept) (on : Bool) : Supplied given kept (c.setLocked on)
  | given {c : Cell} (hc : c ∈ given) : Supplied given kept c
  | copied {c : Cell} (hc : c ∈ given) (slot : Cell) : Supplied given kept (c.copyInto slot)
  | lifted {c d : Cell} (hc : c ∈ given) (hd : c.toMeta = .ok d) (slot : Cell) :
      Supplied given kept (d.copyInto slot)
  | key (s : Symbol) : Supplied given kept (.word s)
  | blank : Supplied given kept .blank

structure Edited (P : Cell → Prop) (b b' : Buffer) : Prop where
  frame : b' = { b with contents := b'.contents, reserved := b'.reserved }
  elementKind : b'.elementKind = b.elementKind
  stored : ∀ c ∈ b'.stored, P c

theorem Edited.mono {P Q : Cell → Prop} {b b' : Buffer} (he : Edited P b b')
    (hpq : ∀ c, P c → Q c) : Edited Q b b' :=
  ⟨he.frame, he.elementKind, fun c hc => hpq c (he.stored c hc)⟩

structure Formed (b : Buffer) : Prop where
  fixedSize : b.fixedSize = (b.elementKind == .pairing)
  keyed : b.keylist.isSome = true → b.elementKind = .cells

theorem formed_of_keyless {b : Buffer} (hz : b.fixedSize = (b.elementKind == .pairing))
    (hk : b.keylist = none) : b.Formed := by
  refine ⟨hz, fun hs => ?_⟩
  rw [hk] at hs
  cases hs

theorem checkElements_eq_ok {cs : List Cell} {u : Unit} (h : checkElements cs = .ok u) :
    ∀ c ∈ cs, c.isElement = true := by
  simp only [checkElements] at h
  split at h
  · cases h
  · rename_i hn
    simpa using List.find?_eq_none.1 hn

theorem array_eq_ok {b : Buffer} {cs : List Cell} (h : b.array = .ok cs) :
    b.contents = .cells cs := by
  simp only [array] at h
  split at h <;> cases h
  assumption

theorem insertCells_eq_ok {b b' : Buffer} {i : Nat} {new : List Cell}
    (h : b.insertCells i new = .ok b') :
    ∃ cs, b.contents = .cells cs ∧ i ≤ cs.length ∧ (∀ c ∈ new, c.isElement = true) ∧
      b' = b.withContents (.cells (cs.take i ++ new ++ cs.drop i)) := by
  simp only [insertCells, bind_eq_ok_iff, throw_eq_error, error_bind, ite_error_eq_ok_iff] at h
  obtain ⟨_, _, _, hn, cs, hcs, hi, hb⟩ := h
  exact ⟨cs, array_eq_ok hcs, by omega, checkElements_eq_ok hn, (Except.ok.inj hb).symm⟩

theorem setCell_eq_ok {b b' : Buffer} {i : Nat} {c : Cell} (h : b.setCell i c = .ok b') :
    c.isElement = true ∧
      ((∃ cs old, b.contents = .cells cs ∧ cs[i]? = some old ∧
          b' = b.withContents (.cells (cs.set i (c.copyInto old)))) ∨
        ∃ x y, b.contents = .pairing x y ∧
          (b' = b.withContents (.pairing (c.copyInto x) y) ∨
            b' = b.withContents (.pairing x (c.copyInto y)))) := by
  simp only [setCell, bind_eq_ok_iff] at h
  obtain ⟨_, hc, h⟩ := h
  refine ⟨checkElements_eq_ok hc c (by simp), ?_⟩
  split at h
  · rename_i cs hcs
    split at h
    · rename_i old hold
      exact Or.inl ⟨cs, old, hcs, hold, (Except.ok.inj h).symm⟩
    · cases h
  · rename_i x y hxy
    refine Or.inr ⟨x, y, hxy, ?_⟩
    split at h
    · exact Or.inl (Except.ok.inj h).symm
    · exact Or.inr (Except.ok.inj h).symm
    · cases h
  · cases h

theorem modifySlot_eq_ok {b b' : Buffer} {i : Nat} {f : Cell → Except Fault Cell}
    (h : b.modifySlot i f = .ok b') :
    ∃ cs old new, b.contents = .cells cs ∧ cs[i]? = some old ∧ f old = .ok new ∧
      b' = b.withContents (.cells (cs.set i new)) := by
  simp only [modifySlot, bind_eq_ok_iff] at h
  obtain ⟨cs, hcs, h⟩ := h
  split at h
  · rename_i old hold
    obtain ⟨new, hnew, hb⟩ := bind_eq_ok_iff.1 h
    exact ⟨cs, old, new, array_eq_ok hcs, hold, hnew, (Except.ok.inj hb).symm⟩
  · cases h

theorem pushSlot_eq_ok {b b' : Buffer} {c : Cell} (h : b.pushSlot c = .ok b') :
    ∃ cs, b.contents = .cells cs ∧ b' = b.withContents (.cells (cs ++ [c])) := by
  simp only [pushSlot, bind_eq_ok_iff] at h
  obtain ⟨_, _, cs, hcs, hb⟩ := h
  exact ⟨cs, array_eq_ok hcs, (Except.ok.inj hb).symm⟩

theorem insertBytes_eq_ok {b b' : Buffer} {i : Nat} {new : List UInt8}
    (h : b.insertBytes i new = .ok b') :
    ∃ bs, b.contents = .bytes bs ∧ b' = b.withContents (.bytes (bs.take i ++ new ++ bs.drop i)) := by
  simp only [insertBytes, bind_eq_ok_iff, throw_eq_error, error_bind, ite_error_eq_ok_iff] at h
  obtain ⟨bs, hbs, _, hb⟩ := h
  refine ⟨bs, ?_, (Except.ok.inj hb).symm⟩
  simp only [bytes] at hbs
  split at hbs <;> cases hbs
  assumption

theorem insertText_eq_ok {b b' : Buffer} {i : Nat} {new : String}
    (h : b.insertText i new = .ok b') :
    ∃ s t, b.contents = .text s ∧ b' = b.withContents (.text t) := by
  simp only [insertText, bind_eq_ok_iff] at h
  obtain ⟨s, hs, ⟨l, r⟩, _, hb⟩ := h
  refine ⟨s, _, ?_, (Except.ok.inj hb).symm⟩
  simp only [text] at hs
  split at hs <;> cases hs
  assumption

/-- Removal from a pairing is refused, since a pairing is fixed in size; here it changes nothing. -/
theorem remove_eq_ok {b b' : Buffer} {i n : Nat} (h : b.remove i n = .ok b') :
    (∃ bs bs', b.contents = .bytes bs ∧ b' = b.withContents (.bytes bs')) ∨
      (∃ s t, b.contents = .text s ∧ b' = b.withContents (.text t)) ∨
      (∃ cs, b.contents = .cells cs ∧
        b' = b.withContents (.cells (cs.take i ++ cs.drop (min (i + n) cs.length)))) ∨
      ((∃ x y, b.contents = .pairing x y) ∧ b' = b) := by
  simp only [remove, bind_eq_ok_iff, throw_eq_error, error_bind, ite_error_eq_ok_iff] at h
  obtain ⟨_, _, _, h⟩ := h
  split at h
  · rename_i bs hbs
    exact Or.inl ⟨bs, _, hbs, (Except.ok.inj h).symm⟩
  · rename_i cs hcs
    refine Or.inr (Or.inr (Or.inl ⟨cs, hcs, ?_⟩))
    have hl : b.length = cs.length := by simp [length, hcs, Contents.length]
    rw [← hl]
    exact (Except.ok.inj h).symm
  · rename_i s hs
    obtain ⟨_, _, h⟩ := bind_eq_ok_iff.1 h
    obtain ⟨_, _, h⟩ := bind_eq_ok_iff.1 h
    exact Or.inr (Or.inl ⟨s, _, hs, (Except.ok.inj h).symm⟩)
  · rename_i x y hxy
    exact Or.inr (Or.inr (Or.inr ⟨⟨x, y, hxy⟩, (Except.ok.inj h).symm⟩))

theorem truncate_eq_ok {b b' : Buffer} {n : Nat} (h : b.truncate n = .ok b') :
    b' = b ∨ b.remove n (b.length - n) = .ok b' := by
  simp only [truncate] at h
  split at h
  · exact Or.inl (Except.ok.inj h).symm
  · exact Or.inr h

variable {P : Cell → Prop} {b b' : Buffer}

theorem stored_of_cells {cs : List Cell} (hc : b.contents = .cells cs) : b.stored = cs := by
  simp [stored, hc, Contents.stored]

theorem edited_rfl (hk : ∀ c ∈ b.stored, P c) : Edited P b b := ⟨rfl, rfl, hk⟩

theorem edited_withContents {c : Contents} (hk : c.elementKind = b.elementKind)
    (hc : ∀ d ∈ c.stored, P d) : Edited P b (b.withContents c) :=
  ⟨rfl, hk, hc⟩

theorem edited_cells {cs cs' : List Cell} (hcs : b.contents = .cells cs)
    (hc : ∀ d ∈ cs', P d) : Edited P b (b.withContents (.cells cs')) :=
  edited_withContents (by simp [elementKind, hcs, Contents.elementKind]) hc

theorem reserve_edited (n : Nat) (hk : ∀ c ∈ b.stored, P c) : Edited P b (b.reserve n) :=
  ⟨rfl, rfl, hk⟩

theorem insertCells_edited {i : Nat} {new : List Cell} (h : b.insertCells i new = .ok b')
    (hk : ∀ c ∈ b.stored, P c) (hn : ∀ c ∈ new, c.isElement = true → P c) : Edited P b b' := by
  obtain ⟨cs, hcs, _, he, rfl⟩ := insertCells_eq_ok h
  rw [stored_of_cells hcs] at hk
  apply edited_cells hcs
  intro d hd
  simp only [List.mem_append] at hd
  rcases hd with (hd | hd) | hd
  · exact hk d (List.mem_of_mem_take hd)
  · exact hn d hd (he d hd)
  · exact hk d (List.mem_of_mem_drop hd)

theorem setCell_edited {i : Nat} {c : Cell} (h : b.setCell i c = .ok b')
    (hk : ∀ d ∈ b.stored, P d) (hc : c.isElement = true → ∀ slot, P (c.copyInto slot)) :
    Edited P b b' := by
  obtain ⟨he, ⟨cs, old, hcs, _, rfl⟩ | ⟨x, y, hxy, rfl | rfl⟩⟩ := setCell_eq_ok h
  · rw [stored_of_cells hcs] at hk
    apply edited_cells hcs
    intro d hd
    rcases List.mem_or_eq_of_mem_set hd with hd | rfl
    · exact hk d hd
    · exact hc he old
  all_goals
    have hst : b.stored = [x, y] := by simp [stored, hxy, Contents.stored]
    rw [hst] at hk
    apply edited_withContents (by simp [elementKind, hxy, Contents.elementKind])
    intro d hd
    simp only [Contents.stored, List.mem_cons, List.not_mem_nil, or_false] at hd
    rcases hd with rfl | rfl
  · exact hc he x
  · exact hk d (by simp)
  · exact hk d (by simp)
  · exact hc he y

theorem modifySlot_edited {i : Nat} {f : Cell → Except Fault Cell}
    (h : b.modifySlot i f = .ok b') (hk : ∀ c ∈ b.stored, P c)
    (hf : ∀ old ∈ b.stored, ∀ new, f old = .ok new → P new) : Edited P b b' := by
  obtain ⟨cs, old, new, hcs, hold, hnew, rfl⟩ := modifySlot_eq_ok h
  rw [stored_of_cells hcs] at hk hf
  apply edited_cells hcs
  intro d hd
  rcases List.mem_or_eq_of_mem_set hd with hd | rfl
  · exact hk d hd
  · exact hf old (List.mem_of_getElem? hold) d hnew

theorem pushSlot_edited {c : Cell} (h : b.pushSlot c = .ok b') (hk : ∀ d ∈ b.stored, P d)
    (hc : P c) : Edited P b b' := by
  obtain ⟨cs, hcs, rfl⟩ := pushSlot_eq_ok h
  rw [stored_of_cells hcs] at hk
  apply edited_cells hcs
  intro d hd
  simp only [List.mem_append, List.mem_singleton] at hd
  rcases hd with hd | rfl
  · exact hk d hd
  · exact hc

theorem insertBytes_edited {i : Nat} {new : List UInt8} (h : b.insertBytes i new = .ok b') :
    Edited P b b' := by
  obtain ⟨bs, hbs, rfl⟩ := insertBytes_eq_ok h
  exact edited_withContents (by simp [elementKind, hbs, Contents.elementKind])
    (by simp [Contents.stored])

theorem insertText_edited {i : Nat} {new : String} (h : b.insertText i new = .ok b') :
    Edited P b b' := by
  obtain ⟨s, t, hs, rfl⟩ := insertText_eq_ok h
  exact edited_withContents (by simp [elementKind, hs, Contents.elementKind])
    (by simp [Contents.stored])

theorem remove_edited {i n : Nat} (h : b.remove i n = .ok b') (hk : ∀ c ∈ b.stored, P c) :
    Edited P b b' := by
  obtain ⟨bs, bs', hbs, rfl⟩ | ⟨s, t, hs, rfl⟩ | ⟨cs, hcs, rfl⟩ | ⟨_, rfl⟩ := remove_eq_ok h
  · exact edited_withContents (by simp [elementKind, hbs, Contents.elementKind])
      (by simp [Contents.stored])
  · exact edited_withContents (by simp [elementKind, hs, Contents.elementKind])
      (by simp [Contents.stored])
  · rw [stored_of_cells hcs] at hk
    apply edited_cells hcs
    intro d hd
    rcases List.mem_append.1 hd with hd | hd
    · exact hk d (List.mem_of_mem_take hd)
    · exact hk d (List.mem_of_mem_drop hd)
  · exact edited_rfl hk

theorem truncate_edited {n : Nat} (h : b.truncate n = .ok b') (hk : ∀ c ∈ b.stored, P c) :
    Edited P b b' := by
  rcases truncate_eq_ok h with rfl | h
  · exact edited_rfl hk
  · exact remove_edited h hk

end Buffer

end CellHeap
