import CellHeap.Operation
import CellHeap.Proofs.Heap.Arena

/-!
# The elements of a series

Whatever a buffer holds, its elements form one list: bytes, characters or cells.
The readers of a series work on the contents in different ways, by slices, by byte
offsets of text and by positions. All of them show the part of that list from the
position of the cell on, or fail in the same way.
-/

set_option autoImplicit false

namespace CellHeap

namespace Contents

def items : Contents → List Item
  | .bytes bs => bs.map .byte
  | .text s => s.toList.map .char
  | .cells cs => cs.map .cell
  | .pairing x y => [.cell x, .cell y]

def without (i : Nat) : Contents → Slice
  | .bytes bs => .bytes (bs.drop i)
  | .text s => .text (String.ofList (s.toList.drop i))
  | .cells cs => .cells (cs.drop i)
  | .pairing x y => .cells ([x, y].drop i)

theorem length_items (x : Contents) : x.items.length = x.length := by
  cases x <;> simp [items, length, String.length_toList]

end Contents

namespace Slice

def items : Slice → List Item
  | .bytes bs => bs.map .byte
  | .text s => s.toList.map .char
  | .cells cs => cs.map .cell

theorem length_items (s : Slice) : s.items.length = s.length := by
  cases s <;> simp [items, length, String.length_toList]

end Slice

theorem Contents.items_without (x : Contents) (i : Nat) :
    (x.without i).items = x.items.drop i := by
  cases x <;> simp [items, without, Slice.items, List.map_drop]

def Buffer.items (b : Buffer) : List Item := b.contents.items

theorem Buffer.length_items (b : Buffer) : b.items.length = b.length := b.contents.length_items

namespace Text

theorem utf8_append (s t : String) : utf8 (s ++ t) = utf8 s ++ utf8 t := by
  simp [utf8]

def Between (s : String) (i : Nat) : Prop :=
  ∃ off, byteOffset s i = .ok off ∧
    (utf8 s).take off = utf8 (String.ofList (s.toList.take i)) ∧
    (utf8 s).drop off = utf8 (String.ofList (s.toList.drop i))

theorem between_of_le {s : String} {i : Nat} (hi : i ≤ s.length) : Between s i := by
  refine ⟨byteSize (s.toList.take i), byteOffset_of_le hi, ?_⟩
  have hs : utf8 s = utf8 (String.ofList (s.toList.take i)) ++
      utf8 (String.ofList (s.toList.drop i)) := by
    rw [← utf8_append, ← String.ofList_append, List.take_append_drop, String.ofList_toList]
  rw [hs, ← utf8ByteSize_ofList, ← length_utf8, List.take_left, List.drop_left]
  exact ⟨rfl, rfl⟩

end Text

namespace Series

theorem item?_eq_getElem? (x : Contents) (i : Nat) : item? x i = x.items[i]? := by
  cases x with
  | pairing a b => exact (List.getElem?_map (f := Item.cell)).symm
  | _ => simp [item?, Contents.items]

section Reading

variable {h : Heap} {c : Cell} {id : BufferId} {i : Nat} {b : Buffer}

structure Fails (h : Heap) (c : Cell) (e : Fault) : Prop where
  length : lengthAt h c = .error e
  rest : rest h c = .error e
  element : ∀ k, elementAt h c k = .error e

structure Shows (h : Heap) (c : Cell) (b : Buffer) (i : Nat) (s : Slice) : Prop where
  rest : rest h c = .ok s
  contents : s = b.contents.without i
  items : s.items = b.items.drop i
  length : lengthAt h c = .ok s.length
  remaining : s.length = b.length - i
  /-- Text is not divided inside a character. -/
  between : ∀ t, b.contents = .text t → Text.Between t i
  /-- Positions are 64 bits wide, and no storage holds more elements than that. -/
  element : b.length ≤ maxIndex → ∀ k, k < s.length →
    ∃ x, s.items[k]? = some x ∧ elementAt h c k = .ok x
  beyond : b.length ≤ maxIndex → ∀ k, s.length ≤ k →
    elementAt h c k = .error (.outOfRange (min (i + k) maxIndex) b.length)

theorem checked_of_le (hp : c.payload = .series id i) (hb : h.read id = .ok b)
    (hi : i ≤ b.length) : checked h c = .ok (b, i) := by
  simp [checked, parts, hp, hb, Nat.not_lt.2 hi]

theorem checked_of_lt (hp : c.payload = .series id i) (hb : h.read id = .ok b)
    (hi : b.length < i) : checked h c = .error (.outOfRange i b.length) := by
  simp [checked, parts, hp, hb, hi]

theorem checked_of_released (hp : c.payload = .series id i) (hr : ¬ h.isReadable id = true) :
    checked h c = .error (.dataFreed id) := by
  simp [checked, parts, hp, Heap.read_of_not_readable hr]

theorem fails_of_checked {e : Fault} (he : checked h c = .error e) : Fails h c e where
  length := by simp [lengthAt, he]
  rest := by simp [Series.rest, he]
  element k := by simp [elementAt, he]

theorem lengthAt_of_checked (hc : checked h c = .ok (b, i)) :
    lengthAt h c = .ok (b.length - i) := by
  simp [lengthAt, hc]

theorem rest_of_checked (hc : checked h c = .ok (b, i)) (hi : i ≤ b.length) :
    rest h c = .ok (b.contents.without i) := by
  cases hx : b.contents with
  | text s =>
    have hs : i ≤ s.length := by simpa [Buffer.length, hx, Contents.length] using hi
    simp [rest, hc, hx, Text.splitAt_of_le hs, Contents.without]
  | _ => simp [rest, hc, hx, Contents.without]

theorem elementAt_of_checked (hc : checked h c = .ok (b, i)) (hb : b.length ≤ maxIndex) (k : Nat) :
    elementAt h c k = ((b.contents.without i).items[k]?).elim
      (.error (.outOfRange (addOffset i k) b.length)) .ok := by
  -- the sum stays at the greatest position only where there is no element anyway
  have hk : b.items[addOffset i k]? = (b.contents.without i).items[k]? := by
    rw [Contents.items_without, List.getElem?_drop]
    by_cases hmax : i + k ≤ maxIndex
    · rw [addOffset, Nat.min_eq_left hmax]
      rfl
    · have hlast : b.items.length ≤ addOffset i k := by
        rw [b.length_items, addOffset, Nat.min_eq_right (by omega)]
        exact hb
      have hpast : b.contents.items.length ≤ i + k := by
        rw [Contents.length_items]
        exact Nat.le_trans hb (by omega)
      rw [List.getElem?_eq_none hlast, List.getElem?_eq_none hpast]
  simp only [elementAt, hc, ok_bind, item?_eq_getElem?]
  rw [show b.contents.items = b.items from rfl, hk]
  cases (b.contents.without i).items[k]? <;> rfl

theorem shows_of_checked (hc : checked h c = .ok (b, i)) (hi : i ≤ b.length) :
    Shows h c b i (b.contents.without i) := by
  have hlength : (b.contents.without i).length = b.length - i := by
    rw [← Slice.length_items, Contents.items_without, List.length_drop, Contents.length_items]
    rfl
  refine ⟨rest_of_checked hc hi, rfl, b.contents.items_without i, ?_, hlength, ?_, ?_, ?_⟩
  · rw [lengthAt_of_checked hc, hlength]
  · intro t ht
    apply Text.between_of_le
    simpa [Buffer.length, ht, Contents.length] using hi
  · intro hb k hk
    rw [← Slice.length_items] at hk
    refine ⟨_, List.getElem?_eq_getElem hk, ?_⟩
    rw [elementAt_of_checked hc hb, List.getElem?_eq_getElem hk]
    rfl
  · intro hb k hk
    rw [← Slice.length_items] at hk
    rw [elementAt_of_checked hc hb, List.getElem?_eq_none hk]
    rfl

end Reading

/-- The readers of a series agree in every heap, so at every moment of every run: they succeed
exactly if the buffer can be read and the position is not past its present end, then show the
same elements, and otherwise fail alike. A position left behind by edits is never read. -/
theorem reads_agree (h : Heap) (c : Cell) (id : BufferId) (i : Nat)
    (hp : c.payload = .series id i) :
    ((∃ n, lengthAt h c = .ok n) ↔ ∃ b, h.read id = .ok b ∧ i ≤ b.length) ∧
    ((∃ s, rest h c = .ok s) ↔ ∃ b, h.read id = .ok b ∧ i ≤ b.length) ∧
    (∀ b, h.read id = .ok b → i ≤ b.length → ∃ s, Shows h c b i s) ∧
    (∀ b, h.read id = .ok b → b.length < i → Fails h c (.outOfRange i b.length)) ∧
    (¬ h.isReadable id = true → Fails h c (.dataFreed id)) := by
  have hshown : ∀ b, h.read id = .ok b → i ≤ b.length → ∃ s, Shows h c b i s := by
    intro b hb hi
    exact ⟨_, shows_of_checked (checked_of_le hp hb hi) hi⟩
  have hpast : ∀ b, h.read id = .ok b → b.length < i → Fails h c (.outOfRange i b.length) := by
    intro b hb hi
    exact fails_of_checked (checked_of_lt hp hb hi)
  have hreleased : ¬ h.isReadable id = true → Fails h c (.dataFreed id) := by
    intro hr
    exact fails_of_checked (checked_of_released hp hr)
  have hcases : (∃ b, h.read id = .ok b ∧ i ≤ b.length) ∨ ∃ e, Fails h c e := by
    by_cases hr : h.isReadable id = true
    · obtain ⟨b, hb⟩ := Heap.isReadable_iff.1 hr
      by_cases hi : i ≤ b.length
      · exact Or.inl ⟨b, hb, hi⟩
      · exact Or.inr ⟨_, hpast b hb (by omega)⟩
    · exact Or.inr ⟨_, hreleased hr⟩
  refine ⟨⟨?_, ?_⟩, ⟨?_, ?_⟩, hshown, hpast, hreleased⟩
  · rintro ⟨n, hn⟩
    refine hcases.resolve_right ?_
    rintro ⟨e, he⟩
    cases hn.symm.trans he.length
  · rintro ⟨b, hb, hi⟩
    obtain ⟨s, hs⟩ := hshown b hb hi
    exact ⟨s.length, hs.length⟩
  · rintro ⟨s, hs⟩
    refine hcases.resolve_right ?_
    rintro ⟨e, he⟩
    cases hs.symm.trans he.rest
  · rintro ⟨b, hb, hi⟩
    obtain ⟨s, hs⟩ := hshown b hb hi
    exact ⟨s, hs.rest⟩

/-- A position behind a wide character, before and after a cut through another cell. -/
theorem reads_agree_cut :
    let view := Cell.bare .text (.series ⟨0, 0⟩ 2)
    let before := (Heap.new {}).run [.makeString .text "aéz"]
    let after := before.run [.truncate (.bare .text (.series ⟨0, 0⟩ 0)) 1]
    (∃ b s, before.read ⟨0, 0⟩ = .ok b ∧ b.length = 3 ∧ Shows before view b 2 s) ∧
      Fails after view (.outOfRange 2 1) := by
  intro view before after
  have hlong : ∃ b, before.read ⟨0, 0⟩ = .ok b ∧ b.length = 3 := ⟨_, rfl, by decide +kernel⟩
  have hshort : ∃ b, after.read ⟨0, 0⟩ = .ok b ∧ b.length = 1 := ⟨_, rfl, by decide +kernel⟩
  obtain ⟨b, hb, hlength⟩ := hlong
  obtain ⟨b', hb', hlength'⟩ := hshort
  obtain ⟨_, _, hshown, _⟩ := reads_agree before view ⟨0, 0⟩ 2 rfl
  obtain ⟨_, _, _, hpast, _⟩ := reads_agree after view ⟨0, 0⟩ 2 rfl
  obtain ⟨s, hs⟩ := hshown b hb (by omega)
  have hfails := hpast b' hb' (by omega)
  rw [hlength'] at hfails
  exact ⟨⟨b, s, hb, hlength, hs⟩, hfails⟩

end Series

end CellHeap
