import CellHeap.Proofs.Buffer.Edited
import CellHeap.Proofs.Heap.Arena
import CellHeap.Sequence.Basic

/-!
# The elements of a sequence

All readers of a sequence are functions of the elements that its storage gives,
the binding of its cell and its kind. None of them sees the form of the storage.
-/

set_option autoImplicit false

namespace CellHeap

theorem mapM_eq_ok {ε α β : Type} {f : α → Except ε β} {g : α → β} (l : List α)
    (hf : ∀ a ∈ l, f a = .ok (g a)) : l.mapM f = .ok (l.map g) := by
  induction l with
  | nil => rfl
  | cons a l ih =>
    have ha := hf a (by simp)
    have hl := ih fun b hb => hf b (by simp [hb])
    simp [List.mapM_cons, ha, hl]

namespace Sequence

variable {h : Heap} {c : Cell} {s : Storage} {es : List Cell} {i n : Nat} {k : Kind}

theorem isBare_of_objection? {e : Cell} (ho : objection? h k i n e = none) :
    e.isBare = true := by
  by_cases hb : e.isBare = true
  · exact hb
  · simp [objection?, hb] at ho

theorem mem_firstObjection? {e : Cell} (ho : firstObjection? h k n i es = none) (he : e ∈ es) :
    ∃ j, objection? h k j n e = none := by
  induction es generalizing i with
  | nil => cases he
  | cons d es ih =>
    simp only [firstObjection?] at ho
    split at ho
    · cases ho
    · rcases List.mem_cons.1 he with hed | hmem
      · subst hed
        exact ⟨i, ‹_›⟩
      · exact ih ho hmem

theorem validate_eq_ok (hv : validate h k es = .ok ()) : k.isSequence = true ∧ 2 ≤ es.length ∧
    ∀ e ∈ es, ∃ j, objection? h k j es.length e = none := by
  simp only [validate] at hv
  split at hv
  · cases hv
  · split at hv
    · cases hv
    · split at hv
      · cases hv
      · have hk : k.isSequence = true := by simp_all
        have hn : 2 ≤ es.length := by omega
        exact ⟨hk, hn, fun e he => mem_firstObjection? ‹_› he⟩

theorem bare_of_validate (hv : validate h k es = .ok ()) :
    es ≠ [] ∧ ∀ e ∈ es, e.isBare = true := by
  obtain ⟨_, hlen, hobj⟩ := validate_eq_ok hv
  constructor
  · rintro rfl
    cases hlen
  · intro e he
    obtain ⟨j, ho⟩ := hobj e he
    exact isBare_of_objection? ho

theorem firstObjection?_congr {h' : Heap} (hs : h'.symbols = h.symbols) (es : List Cell) (i : Nat) :
    firstObjection? h' k n i es = firstObjection? h k n i es := by
  induction es generalizing i with
  | nil => rfl
  | cons e es ih =>
    have ho : objection? h' k i n e = objection? h k i n e := by
      have hsp : h'.spelling = h.spelling := by
        ext x
        simp [Heap.spelling, hs]
      simp only [objection?, hsp]
    simp only [firstObjection?, ho, ih]

/-- Only the symbol table decides which elements are admitted. -/
theorem validate_congr {h' : Heap} (hs : h'.symbols = h.symbols) :
    validate h' k es = validate h k es := by
  simp only [validate, firstObjection?_congr hs]

theorem references_of_inlineStorage? {limit : Nat} (hs : inlineStorage? es limit = some s) :
    (Cell.bare k (.sequence s)).references = [] := by
  simp only [inlineStorage?] at hs
  split at hs
  · cases hs
    rfl
  · unfold wordStorage? at hs
    repeat' split at hs
    all_goals simp only [Option.map_eq_some_iff, reduceCtorEq] at hs
    all_goals
      obtain ⟨_, _, hw⟩ := hs
      subst hw
      rfl

theorem store_inline (hi : inlineStorage? es h.config.maxSequenceInline = some s) :
    store .adaptive es h = .ok s h := by
  simp only [store, HeapM.bind_apply, HeapM.get_apply, hi]
  rfl

/-- The three ways to keep elements: in the cell, in a pairing, in an array. -/
theorem store_apply (m : Compression) (es : List Cell) (h : Heap) :
    (∃ s, inlineStorage? es h.config.maxSequenceInline = some s ∧ store m es h = .ok s h) ∨
    (∃ a b, es = [a, b] ∧
      store m es h = (Storage.pair <$> Heap.allocateFrozen (.pairing a b)) h) ∨
    store m es h = (Storage.array <$> Heap.allocateFrozen (.cells es)) h := by
  cases m with
  | never => exact Or.inr (Or.inr rfl)
  | adaptive =>
    cases hi : inlineStorage? es h.config.maxSequenceInline with
    | some s => exact Or.inl ⟨s, rfl, store_inline hi⟩
    | none =>
      apply Or.inr
      rcases es with _ | ⟨a, _ | ⟨b, _ | ⟨c, rest⟩⟩⟩
      case cons.cons.nil =>
        refine Or.inl ⟨a, b, rfl, ?_⟩
        simp only [store, HeapM.bind_apply, HeapM.get_apply, hi]
        rfl
      all_goals
        apply Or.inr
        simp only [store, HeapM.bind_apply, HeapM.get_apply, hi]
        rfl

theorem length_of_cells {b : Buffer} (hb : b.cells = .ok es) : b.length = es.length := by
  unfold Buffer.cells at hb
  unfold Buffer.length
  cases hc : b.contents <;> rw [hc] at hb <;> cases hb <;> rfl

theorem storedLength_eq (he : storedElements h s = .ok es) : storedLength h s = .ok es.length := by
  cases s with
  | bytes b =>
    cases he
    simp [storedLength, InlineBytes.size]
  | word x side =>
    cases he
    cases side <;> rfl
  | pair id | array id =>
    obtain ⟨b, hr, hb⟩ := bind_eq_ok_iff.1 he
    simp [storedLength, hr, length_of_cells hb]

theorem storedAt_eq {e : Cell} (he : storedElements h s = .ok es) (hi : es[i]? = some e) :
    storedAt h s i = .ok e := by
  simp [storedAt, he, hi]

theorem storedAt_beyond (he : storedElements h s = .ok es) (hi : es.length ≤ i) :
    storedAt h s i = .error (.outOfRange i es.length) := by
  have hn : es[i]? = none := List.getElem?_eq_none hi
  simp [storedAt, he, hn]

def kept (h : Heap) (c : Cell) : Except Fault (List Cell) := storage c >>= storedElements h

theorem storage_congr {α : Type} {h' : Heap} (f : Heap → Storage → Except Fault α)
    (hf : ∀ s, (∀ id, s = .pair id ∨ s = .array id → h'.sight id = h.sight id) → f h' s = f h s)
    (hr : ∀ id ∈ c.references, h'.sight id = h.sight id) :
    (storage c >>= f h') = (storage c >>= f h) := by
  unfold storage
  cases hp : c.payload with
  | sequence s =>
    simp only [ok_bind]
    apply hf
    intro id hid
    apply hr
    rcases hid with hid | hid <;> subst hid <;> simp [Cell.references, hp]
  | _ => rfl

theorem storedElements_congr {h' : Heap} (s : Storage)
    (hr : ∀ id, s = .pair id ∨ s = .array id → h'.sight id = h.sight id) :
    storedElements h' s = storedElements h s := by
  cases s with
  | bytes | word => rfl
  | pair id => exact Heap.reading_of_sight (hr id (Or.inl rfl)) fun _ _ => Buffer.cells_of_sight
  | array id => exact Heap.reading_of_sight (hr id (Or.inr rfl)) fun _ _ => Buffer.cells_of_sight

theorem kept_congr {h' : Heap} (hr : ∀ id ∈ c.references, h'.sight id = h.sight id) :
    kept h' c = kept h c :=
  storage_congr storedElements storedElements_congr hr

theorem length_eq (he : kept h c = .ok es) : length h c = .ok es.length := by
  obtain ⟨s, hs, hse⟩ := bind_eq_ok_iff.1 he
  simp [length, hs, storedLength_eq hse]

theorem elementAt_eq {e : Cell} (he : kept h c = .ok es) (hi : es[i]? = some e) :
    elementAt h c i = .ok (inherit c.binding e) := by
  obtain ⟨s, hs, hse⟩ := bind_eq_ok_iff.1 he
  simp [elementAt, hs, storedAt_eq hse hi]

theorem elementAt_beyond (he : kept h c = .ok es) (hi : es.length ≤ i) :
    elementAt h c i = .error (.outOfRange i es.length) := by
  obtain ⟨s, hs, hse⟩ := bind_eq_ok_iff.1 he
  simp [elementAt, hs, storedAt_beyond hse hi]

theorem elementAt_of_error {e : Fault} (he : kept h c = .error e) : elementAt h c i = .error e := by
  rcases bind_eq_error_iff.1 he with hs | ⟨s, hs, hse⟩
  · simp [elementAt, hs]
  · simp [elementAt, hs, storedAt, hse]

theorem elements_eq (he : kept h c = .ok es) :
    elements h c = .ok (es.map (inherit c.binding)) := by
  have hm : (List.range es.length).mapM (elementAt h c) =
      .ok ((List.range es.length).map fun j => inherit c.binding (es[j]?.getD .blank)) := by
    apply mapM_eq_ok
    intro j hj
    have hlt : j < es.length := List.mem_range.1 hj
    simp [elementAt_eq he (List.getElem?_eq_getElem hlt), hlt]
  have hr : ((List.range es.length).map fun j => inherit c.binding (es[j]?.getD .blank)) =
      es.map (inherit c.binding) := by
    apply List.ext_getElem
    · simp
    · intro j hj hj'
      have hlt : j < es.length := by simpa using hj
      simp [hlt]
  simp [elements, length_eq he, hm, hr]

theorem isBlank_inherit (b : Option Binding) (e : Cell) : (inherit b e).isBlank = e.isBlank := by
  unfold inherit
  split <;> rfl

theorem kind_inherit (b : Option Binding) (e : Cell) : (inherit b e).kind = e.kind := by
  unfold inherit
  split <;> rfl

def sideOf (es : List Cell) : Option Side :=
  if es[0]?.any Cell.isBlank then some .leading
  else if es[es.length - 1]?.any Cell.isBlank then some .trailing
  else none

theorem blankSide_eq (he : kept h c = .ok es) (hn : es ≠ []) :
    blankSide h c = .ok (sideOf es) := by
  obtain ⟨s, hs, hse⟩ := bind_eq_ok_iff.1 he
  have hpos : 0 < es.length := List.length_pos_iff.2 hn
  have hfirst := List.getElem?_eq_getElem hpos
  have hlast : es[es.length - 1]? = some es[es.length - 1] :=
    List.getElem?_eq_getElem (by omega)
  have hscan : (do
      let n ← length h c
      if (← elementAt h c 0).isBlank then return some Side.leading
      if (← elementAt h c (n - 1)).isBlank then return some Side.trailing
      return none) = Except.ok (sideOf es) := by
    simp only [length_eq he, elementAt_eq he hfirst, elementAt_eq he hlast, ok_bind,
      isBlank_inherit, sideOf, hfirst, hlast, Option.any_some, pure_eq_ok]
    by_cases h0 : es[0].isBlank = true
    · simp [h0]
    · by_cases h1 : es[es.length - 1].isBlank = true <;> simp [h0, h1]
  cases s with
  | word x side =>
    cases hse
    cases side <;> simp [blankSide, hs] <;> rfl
  | bytes | pair | array =>
    simp only [blankSide, hs, ok_bind]
    exact hscan

theorem isRefinement_eq (hk : c.kind.isSequence = true) (he : kept h c = .ok es) (hn : es ≠ []) :
    isRefinement h c = .ok (decide (es.length = 2) && sideOf es == some .leading &&
      es[1]?.any (·.kind == .word)) := by
  by_cases h2 : es.length = 2
  · have hsecond : es[1]? = some es[1] := List.getElem?_eq_getElem (by omega)
    simp only [isRefinement, hk, length_eq he, blankSide_eq he hn, elementAt_eq he hsecond, h2,
      hsecond, ok_bind, pure_eq_ok, kind_inherit]
    by_cases hside : sideOf es = some .leading <;> simp [hside]
  · simp [isRefinement, hk, length_eq he, h2]

end Sequence

end CellHeap
