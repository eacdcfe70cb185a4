import CellHeap.Map
import CellHeap.Proofs.Cell.Equality
import CellHeap.Proofs.Heap.Arena
import CellHeap.Proofs.Heap.View
import CellHeap.Proofs.Sequence.Storage

/-!
# Comparing keys

Two keys are compared by their headers and by what they show: a text, the
elements of a series or of a sequence, or the payload itself. What a key shows
depends on the contents of one buffer at most. Equality of keys is symmetric and
transitive in every heap; a key equals itself unless it is, or directly holds, a
number that is not a number.
-/

set_option autoImplicit false

namespace CellHeap

namespace Map

inductive Form where
  | rune | series | sequence | payload
  deriving DecidableEq

def form (k : Cell) : Form :=
  if k.kind = .rune then .rune
  else match k.payload with
    | .series _ _ => .series
    | .sequence _ => .sequence
    | _ => .payload

def outline (k : Cell) : Kind × Lift × Option Sigil × Form := (k.kind, k.lift, k.sigil, form k)

inductive Face where
  | text (text : String)
  | slice (slice : Slice)
  | elements (cells : List Cell)
  | payload (payload : Payload)

def Face.equals : Face → Face → Bool
  | .text a, .text b => a == b
  | .slice a, .slice b => a.equals b
  | .elements a, .elements b => cellsEqual a b
  | .payload a, .payload b => a.equals b
  | _, _ => false

def Face.hasNaN : Face → Bool
  | .slice (.cells cs) | .elements cs => cs.any (·.payload.isNaN)
  | .payload p => p.isNaN
  | _ => false

def face (h : Heap) (k : Cell) : Except Fault Face :=
  match form k with
  | .rune => return .text (← Strings.text h k)
  | .series => return .slice (← Series.rest h k)
  | .sequence => return .elements (← Sequence.elements h k)
  | .payload => return .payload k.payload

def keyBuffer? (k : Cell) : Option BufferId :=
  match k.payload with
  | .series id _ | .sequence (.pair id) | .sequence (.array id) => some id
  | _ => none

theorem keysEqual_eq (h : Heap) (a b : Cell) : keysEqual h a b =
    if outline a = outline b then do return (← face h a).equals (← face h b) else .ok false := by
  by_cases hh : a.kind ≠ b.kind ∨ a.lift ≠ b.lift ∨ a.sigil ≠ b.sigil
  · have ho : outline a ≠ outline b := by
      intro ho
      simp only [outline, Prod.mk.injEq] at ho
      simp [ho] at hh
    simp [keysEqual, hh, ho]
  · simp only [ne_eq, not_or, Decidable.not_not] at hh
    obtain ⟨hk, hl, hs⟩ := hh
    by_cases hr : a.kind = .rune
    · have hr' : b.kind = .rune := hk ▸ hr
      simp [keysEqual, outline, form, face, hl, hs, hr, hr', Face.equals]
    · have hr' : b.kind ≠ .rune := hk ▸ hr
      have ho : outline a = outline b ↔ form a = form b := by simp [outline, hk, hl, hs]
      have hnot : ¬ (a.kind ≠ b.kind ∨ a.lift ≠ b.lift ∨ a.sigil ≠ b.sigil) := by
        simp [hk, hl, hs]
      simp only [ho]
      rw [keysEqual, if_neg hnot, if_neg hr]
      unfold face form
      rw [if_neg hr, if_neg hr']
      cases ha : a.payload with
      | series =>
        cases hb : b.payload with
        | series => cases Series.rest h a <;> cases Series.rest h b <;> rfl
        | _ => rfl
      | sequence =>
        cases hb : b.payload with
        | sequence => cases Sequence.elements h a <;> cases Sequence.elements h b <;> rfl
        | _ => rfl
      | _ => cases hb : b.payload <;> rfl

section Equality

variable {h : Heap} {a b c : Cell} {x : Bool}

theorem keysEqual_eq_ok_iff : keysEqual h a b = .ok x ↔
    (outline a = outline b ∧ ∃ f g, face h a = .ok f ∧ face h b = .ok g ∧ f.equals g = x) ∨
      (outline a ≠ outline b ∧ x = false) := by
  rw [keysEqual_eq]
  by_cases ho : outline a = outline b
  · rw [if_pos ho]
    simp only [bind_eq_ok_iff, pure_eq_ok, Except.ok.injEq, ho, true_and, ne_eq, not_true_eq_false,
      false_and, or_false]
    constructor
    · rintro ⟨f, hf, g, hg, he⟩
      exact ⟨f, g, hf, hg, he⟩
    · rintro ⟨f, g, hf, hg, he⟩
      exact ⟨f, hf, g, hg, he⟩
  · rw [if_neg ho]
    simp [ho, eq_comm]

theorem Face.equals_symm {f g : Face} (hfg : f.equals g = true) : g.equals f = true := by
  cases f <;> cases g <;> simp only [equals, beq_iff_eq, Bool.false_eq_true] at hfg ⊢
  · exact hfg.symm
  · exact Slice.equals_symm hfg
  · exact cellsEqual_symm hfg
  · exact Payload.equals_symm hfg

theorem Face.equals_trans {f g k : Face} (hfg : f.equals g = true) (hgk : g.equals k = true) :
    f.equals k = true := by
  cases f <;> cases g <;> simp only [equals, beq_iff_eq, Bool.false_eq_true] at hfg <;>
    cases k <;> simp only [equals, beq_iff_eq, Bool.false_eq_true] at hgk ⊢
  · exact hfg.trans hgk
  · exact Slice.equals_trans hfg hgk
  · exact cellsEqual_trans hfg hgk
  · exact Payload.equals_trans hfg hgk

theorem keysEqual_symm (hab : keysEqual h a b = .ok x) : keysEqual h b a = .ok x := by
  rcases keysEqual_eq_ok_iff.1 hab with ⟨ho, f, g, hf, hg, he⟩ | ⟨ho, hx⟩
  · refine keysEqual_eq_ok_iff.2 (Or.inl ⟨ho.symm, g, f, hg, hf, ?_⟩)
    rw [← he]
    exact Bool.eq_iff_iff.2 ⟨Face.equals_symm, Face.equals_symm⟩
  · exact keysEqual_eq_ok_iff.2 (Or.inr ⟨Ne.symm ho, hx⟩)

theorem keysEqual_trans (hab : keysEqual h a b = .ok true) (hbc : keysEqual h b c = .ok true) :
    keysEqual h a c = .ok true := by
  rcases keysEqual_eq_ok_iff.1 hab with ⟨ho, f, g, hf, hg, hfg⟩ | ⟨_, hx⟩
  · rcases keysEqual_eq_ok_iff.1 hbc with ⟨ho', g', k, hg', hk, hgk⟩ | ⟨_, hx⟩
    · rw [hg] at hg'
      cases hg'
      exact keysEqual_eq_ok_iff.2 (Or.inl ⟨ho.trans ho', f, k, hf, hk, Face.equals_trans hfg hgk⟩)
    · cases hx
  · cases hx

/-- What is equal to anything holds no NaN. -/
theorem Face.hasNaN_of_equals {f g : Face} (hfg : f.equals g = true) : f.hasNaN = false := by
  cases f <;> cases g <;> simp only [equals, Bool.false_eq_true] at hfg
  case text.text => rfl
  case slice.slice s t =>
    cases s <;> cases t <;> simp only [Slice.equals, Bool.false_eq_true] at hfg
    case cells.cells => simpa [hasNaN] using isNaN_of_cellsEqual hfg
    all_goals rfl
  case elements.elements => simpa [hasNaN] using isNaN_of_cellsEqual hfg
  case payload.payload => exact Payload.isNaN_of_equals hfg

/-- A key that shows no NaN equals itself. -/
theorem keysEqual_self {f : Face} (hf : face h a = .ok f) (hn : f.hasNaN = false) :
    keysEqual h a a = .ok true := by
  refine keysEqual_eq_ok_iff.2 (Or.inl ⟨rfl, f, f, hf, hf, ?_⟩)
  cases f with
  | text s => simp [Face.equals]
  | slice s =>
    cases s with
    | bytes bs => simp [Face.equals, Slice.equals]
    | text s => simp [Face.equals, Slice.equals]
    | cells cs => exact cellsEqual_self (by simpa [Face.hasNaN] using hn)
  | elements cs => exact cellsEqual_self (by simpa [Face.hasNaN] using hn)
  | payload p => exact Payload.equals_self hn

end Equality

section Congruence

variable {h h' : Heap} {k : Cell}

theorem rest_of_contents (hc : ∀ id, keyBuffer? k = some id → h'.contents id = h.contents id) :
    Series.rest h' k = Series.rest h k := by
  cases hp : k.payload with
  | series id i =>
    have hid := hc id (by simp [keyBuffer?, hp])
    rcases Heap.contents_eq hid with ⟨b, b', hr, hr', he⟩ | ⟨hr, hr'⟩
    · by_cases hi : b.contents.length < i <;>
        simp [Series.rest, Series.checked, Series.parts, hp, hr, hr', Buffer.length, he, hi]
    · simp [Series.rest, Series.checked, Series.parts, hp, hr, hr']
  | _ => simp [Series.rest, Series.checked, Series.parts, hp]

theorem text_of_contents (hc : ∀ id, keyBuffer? k = some id → h'.contents id = h.contents id) :
    Strings.text h' k = Strings.text h k := by
  unfold Strings.text
  by_cases hr : k.kind = .rune
  · rw [if_pos hr, if_pos hr]
    unfold Strings.runeText
    cases hp : k.payload with
    | series id i =>
      have hid := hc id (by simp [keyBuffer?, hp])
      rcases Heap.contents_eq hid with ⟨b, b', hr, hr', he⟩ | ⟨hr, hr'⟩
      · simp [hr, hr', Buffer.text, Buffer.mismatch, Buffer.elementKind, he]
      · simp [hr, hr']
    | _ => rfl
  · rw [if_neg hr, if_neg hr, Series.textAt, Series.textAt, rest_of_contents hc]

theorem elements_of_contents (hc : ∀ id, keyBuffer? k = some id → h'.contents id = h.contents id) :
    Sequence.elements h' k = Sequence.elements h k := by
  have hstored : ∀ s, k.payload = .sequence s →
      Sequence.storedElements h' s = Sequence.storedElements h s ∧
        Sequence.storedLength h' s = Sequence.storedLength h s := by
    intro s hp
    cases s with
    | bytes | word => exact ⟨rfl, rfl⟩
    | pair id | array id =>
      have hid := hc id (by simp [keyBuffer?, hp])
      rcases Heap.contents_eq hid with ⟨b, b', hr, hr', he⟩ | ⟨hr, hr'⟩
      · simp [Sequence.storedElements, Sequence.storedLength, hr, hr', Buffer.cells,
          Buffer.mismatch, Buffer.elementKind, Buffer.length, he]
      · simp [Sequence.storedElements, Sequence.storedLength, hr, hr']
  cases hs : Sequence.storage k with
  | error e => simp [Sequence.elements, Sequence.length, hs]
  | ok s =>
    obtain ⟨he, hl⟩ := hstored s (Sequence.storage_eq_ok hs)
    have hat : Sequence.elementAt h' k = Sequence.elementAt h k := by
      funext i
      simp only [Sequence.elementAt, Sequence.storedAt, hs, ok_bind, he]
    simp only [Sequence.elements, Sequence.length, hs, ok_bind, hl, hat]

/-- What a key shows depends only on the contents of its buffer. -/
theorem face_congr (hc : ∀ id, keyBuffer? k = some id → h'.contents id = h.contents id) :
    face h' k = face h k := by
  simp only [face, rest_of_contents hc, text_of_contents hc, elements_of_contents hc]

theorem keysEqual_congr {a b : Cell}
    (ha : ∀ id, keyBuffer? a = some id → h'.contents id = h.contents id)
    (hb : ∀ id, keyBuffer? b = some id → h'.contents id = h.contents id) :
    keysEqual h' a b = keysEqual h a b := by
  rw [keysEqual_eq, keysEqual_eq, face_congr ha, face_congr hb]

end Congruence

end Map

end CellHeap
