import CellHeap.Proofs.Heap.View
import CellHeap.Proofs.Typing.Store

/-!
# What a reader can meet

The kind of a cell says what its payload is and what the buffers behind it look
like as long as they can be read. A reader of a cell in that shape fails for two
reasons only: a buffer is gone, or the position of a series is past an end that
has moved.
-/

set_option autoImplicit false

namespace CellHeap

namespace Kind

variable {k : Kind}

theorem isString_iff :
    k.isString = true ↔ k = .text ∨ k = .file ∨ k = .email ∨ k = .url ∨ k = .tag := by
  cases k <;> decide

theorem isList_iff : k.isList = true ↔ k = .block ∨ k = .group ∨ k = .fence := by
  cases k <;> decide

theorem isSequence_iff : k.isSequence = true ↔ k = .tuple ∨ k = .chain ∨ k = .path := by
  cases k <;> decide

theorem isContext_iff :
    k.isContext = true ↔ k = .object ∨ k = .module ∨ k = .error ∨ k = .frame := by
  cases k <;> decide

end Kind

namespace Heap

def Offers (h : Heap) (id : BufferId) (P : Buffer → Prop) : Prop :=
  ∀ b, h.read id = .ok b → P b

def SeriesOf (h : Heap) (k : ElementKind) (c : Cell) : Prop :=
  ∃ id i, c.payload = .series id i ∧ h.Offers id fun b => b.elementKind = k

def VarlistAt (h : Heap) (v : BufferId) : Prop :=
  h.Offers v fun b => b.elementKind = .cells ∧
    ∃ k, b.keylist = some k ∧ h.Offers k fun keys =>
      keys.elementKind = .cells ∧ keys.length = b.length

def Shaped (h : Heap) (c : Cell) : Prop :=
  match c.kind with
  | .blank | .comma => c.payload = .empty
  | .integer => ∃ i, c.payload = .integer i
  | .decimal | .percent => ∃ d, c.payload = .decimal d
  | .word => ∃ s, c.payload = .word s
  | .handle => ∃ a n, c.payload = .handle a n
  | .rune => (∃ b, c.payload = .inline b ∧ b.text?.isSome = true) ∨ h.SeriesOf .text c
  | .text | .file | .email | .url | .tag => h.SeriesOf .text c
  | .blob => h.SeriesOf .bytes c
  | .block | .group | .fence => h.SeriesOf .cells c
  | .tuple | .chain | .path =>
    ∃ s, c.payload = .sequence s ∧
      (∀ id, s = .pair id →
        h.Offers id fun b => b.frozen = true ∧ b.elementKind = .pairing) ∧
      (∀ id, s = .array id → h.Offers id fun b => b.frozen = true ∧ b.elementKind = .cells)
  | .pair => ∃ id, c.payload = .pairing id ∧
      h.Offers id fun b => b.frozen = true ∧ b.elementKind = .pairing
  | .object | .module | .error => ∃ v, c.payload = .context v ∧ h.VarlistAt v
  | .frame => ∃ v l, c.payload = .frame v l ∧ h.VarlistAt v
  | .parameter => ∃ spec m t f, c.payload = .parameter spec m t f ∧
      ∀ id ∈ spec, h.Offers id fun b => b.frozen = true ∧ b.elementKind = .cells
  | .map => ∃ id, c.payload = .map id ∧
      h.Offers id fun b => b.elementKind = .cells ∧ Even b.length

/-- The faults that a reader of the cell may give: a buffer that the cell names, or the keys
beside it, can not be read any more, or the position of the cell is past the end. -/
inductive Excuses (h : Heap) (c : Cell) : Fault → Prop
  | freed {id : BufferId} (hid : id ∈ c.references) (hr : h.isReadable id = false) :
      Excuses h c (.dataFreed id)
  | keysFreed {v k : BufferId} {b : Buffer} (hv : v ∈ c.references) (hb : h.read v = .ok b)
      (hk : b.keylist = some k) (hr : h.isReadable k = false) : Excuses h c (.dataFreed k)
  | stale {id : BufferId} {i : Nat} {b : Buffer} (hp : c.payload = .series id i)
      (hb : h.read id = .ok b) (hi : b.length < i) : Excuses h c (.outOfRange i b.length)

def Excusable {α : Type} (h : Heap) (c : Cell) (x : Except Fault α) : Prop :=
  ∀ e, x = .error e → h.Excuses c e

end Heap

open Heap

variable {R : Roles} {h : Heap} {c : Cell} {id : BufferId} {α β : Type}

theorem excusable_ok (a : α) : h.Excusable c (.ok a : Except Fault α) := by
  intro e he
  cases he

theorem Heap.Excusable.bind {x : Except Fault α} {f : α → Except Fault β}
    (hx : h.Excusable c x) (hf : ∀ a, x = .ok a → h.Excusable c (f a)) :
    h.Excusable c (x >>= f) := by
  intro e he
  rcases bind_eq_error_iff.1 he with he | ⟨a, ha, he⟩
  · exact hx e he
  · exact hf a ha e he

theorem excusable_read (hid : id ∈ c.references) : h.Excusable c (h.read id) := by
  intro e he
  have hr : h.isReadable id = false := by simp [isReadable, he, Except.isOk, Except.toBool]
  rw [read_eq_error he]
  exact .freed hid hr

namespace Buffer

variable {b : Buffer}

theorem cells_of_elementKind (hb : b.elementKind = .cells ∨ b.elementKind = .pairing) :
    ∃ cs, b.cells = .ok cs := by
  cases hc : b.contents <;>
    simp_all [Buffer.cells, Buffer.elementKind, Contents.elementKind]

theorem text_of_elementKind (hb : b.elementKind = .text) : ∃ s, b.text = .ok s := by
  cases hc : b.contents <;> simp_all [Buffer.text, Buffer.elementKind, Contents.elementKind]

end Buffer

/-- A buffer of cells that the cell names. -/
theorem excusable_cells (hid : id ∈ c.references)
    (hs : h.Offers id fun b => b.elementKind = .cells ∨ b.elementKind = .pairing) :
    h.Excusable c (do (← h.read id).cells) := by
  apply (excusable_read hid).bind
  intro b hb
  obtain ⟨cs, hcs⟩ := Buffer.cells_of_elementKind (hs b hb)
  rw [hcs]
  exact excusable_ok cs

namespace Series

variable {i : Nat}

theorem checked_excusable (hp : c.payload = .series id i) : h.Excusable c (checked h c) := by
  have hid : id ∈ c.references := by simp [Cell.references, hp]
  simp only [checked, parts, hp]
  apply (excusable_ok _).bind
  intro p hpair
  cases hpair
  apply (excusable_read hid).bind
  intro b hb
  by_cases hlt : b.length < i
  · intro e he
    simp only [hlt, if_true] at he
    cases he
    exact .stale hp hb hlt
  · simp only [hlt, if_false]
    exact excusable_ok _

theorem rest_excusable (hp : c.payload = .series id i) : h.Excusable c (rest h c) := by
  apply (checked_excusable hp).bind
  intro p hpair
  obtain ⟨b, j⟩ := p
  obtain ⟨_, _, _, hle⟩ := checked_eq_ok hpair
  cases hb : b.contents with
  | text s =>
    have hlen : j ≤ s.length := by simpa [Buffer.length, Contents.length, hb] using hle
    simp only [hb, Text.splitAt_of_le hlen]
    exact excusable_ok _
  | bytes | cells | pairing =>
    simp only [hb]
    exact excusable_ok _

/-- A slice is of the elements of its buffer. -/
theorem form_of_rest {s : Slice} (hp : c.payload = .series id i) (hr : rest h c = .ok s) :
    ∃ b, h.read id = .ok b ∧
      match s with
      | .bytes _ => b.elementKind = .bytes
      | .text _ => b.elementKind = .text
      | .cells _ => b.elementKind = .cells ∨ b.elementKind = .pairing := by
  obtain ⟨⟨b, j⟩, hc, hr⟩ := bind_eq_ok_iff.1 hr
  obtain ⟨id', hp', hread, hle⟩ := checked_eq_ok hc
  rw [hp] at hp'
  cases hp'
  refine ⟨b, hread, ?_⟩
  cases hb : b.contents with
  | text t =>
    have hlen : i ≤ t.length := by simpa [Buffer.length, Contents.length, hb] using hle
    simp only [hb, Text.splitAt_of_le hlen] at hr
    cases hr
    simp [Buffer.elementKind, hb, Contents.elementKind]
  | bytes | cells | pairing =>
    simp only [hb] at hr
    cases hr
    simp [Buffer.elementKind, hb, Contents.elementKind]

theorem textAt_excusable (hs : h.SeriesOf .text c) : h.Excusable c (textAt h c) := by
  obtain ⟨id, i, hp, hk⟩ := hs
  apply (rest_excusable hp).bind
  intro s hr
  obtain ⟨b, hb, hform⟩ := form_of_rest hp hr
  have hkind := hk b hb
  cases s with
  | text t => exact excusable_ok t
  | bytes | cells => simp [hkind] at hform

theorem bytesAt_excusable (hs : h.SeriesOf .bytes c) : h.Excusable c (bytesAt h c) := by
  obtain ⟨id, i, hp, hk⟩ := hs
  apply (rest_excusable hp).bind
  intro s hr
  obtain ⟨b, hb, hform⟩ := form_of_rest hp hr
  have hkind := hk b hb
  cases s with
  | bytes bs => exact excusable_ok bs
  | text | cells => simp [hkind] at hform

theorem cellsAt_excusable (hs : h.SeriesOf .cells c) : h.Excusable c (cellsAt h c) := by
  obtain ⟨id, i, hp, hk⟩ := hs
  apply (rest_excusable hp).bind
  intro s hr
  obtain ⟨b, hb, hform⟩ := form_of_rest hp hr
  have hkind := hk b hb
  cases s with
  | cells cs => exact excusable_ok cs
  | text | bytes => simp [hkind] at hform

end Series

namespace Heap.Shaped

variable (hs : h.Shaped c)
include hs

theorem seriesOf_text (hk : c.kind.isString = true) : h.SeriesOf .text c := by
  rcases Kind.isString_iff.1 hk with hk | hk | hk | hk | hk <;> simpa only [Shaped, hk] using hs

theorem seriesOf_cells (hk : c.kind.isList = true) : h.SeriesOf .cells c := by
  rcases Kind.isList_iff.1 hk with hk | hk | hk <;> simpa only [Shaped, hk] using hs

theorem seriesOf_bytes (hk : c.kind = .blob) : h.SeriesOf .bytes c := by
  simpa only [Shaped, hk] using hs

theorem text (hk : c.kind.isString = true ∨ c.kind = .rune) :
    h.Excusable c (Strings.text h c) := by
  unfold Strings.text
  by_cases hr : c.kind = .rune
  · simp only [hr, if_true]
    simp only [Shaped, hr] at hs
    rcases hs with ⟨b, hp, hb⟩ | ⟨id, i, hp, hk⟩
    · obtain ⟨t, ht⟩ := Option.isSome_iff_exists.1 hb
      simp only [Strings.runeText, hp, ht]
      exact excusable_ok t
    · simp only [Strings.runeText, hp]
      apply (excusable_read (by simp [Cell.references, hp])).bind
      intro b hb
      obtain ⟨t, ht⟩ := Buffer.text_of_elementKind (hk b hb)
      rw [ht]
      exact excusable_ok t
  · simp only [hr, if_false]
    apply Series.textAt_excusable
    exact hs.seriesOf_text (by simpa [hr] using hk)

theorem sequence (hk : c.kind.isSequence = true) : ∃ s, c.payload = .sequence s ∧
    ∀ id, s = .pair id ∨ s = .array id →
      h.Offers id fun b => b.elementKind = .cells ∨ b.elementKind = .pairing := by
  have hsh : ∃ s, c.payload = .sequence s ∧
      (∀ id, s = .pair id →
        h.Offers id fun b => b.frozen = true ∧ b.elementKind = .pairing) ∧
      (∀ id, s = .array id → h.Offers id fun b => b.frozen = true ∧ b.elementKind = .cells) := by
    rcases Kind.isSequence_iff.1 hk with hk | hk | hk <;> simpa only [Shaped, hk] using hs
  obtain ⟨s, hp, hpair, harray⟩ := hsh
  refine ⟨s, hp, ?_⟩
  intro id hid b hb
  rcases hid with hid | hid
  · exact Or.inr (hpair id hid b hb).2
  · exact Or.inl (harray id hid b hb).2

theorem length (hk : c.kind.isSequence = true) : h.Excusable c (Sequence.length h c) := by
  obtain ⟨s, hp, _⟩ := hs.sequence hk
  simp only [Sequence.length, Sequence.storage, hp]
  apply (excusable_ok s).bind
  intro s' hs'
  cases hs'
  cases s with
  | bytes | word => exact excusable_ok _
  | pair id | array id =>
    apply (excusable_read (by simp [Cell.references, hp])).bind
    intro b _
    exact excusable_ok _

/-- As soon as the length of a sequence can be read, all elements can. -/
theorem kept_of_length {n : Nat} (hk : c.kind.isSequence = true)
    (hl : Sequence.length h c = .ok n) : ∃ es, Sequence.kept h c = .ok es ∧ es.length = n := by
  obtain ⟨s, hp, hbuf⟩ := hs.sequence hk
  have hkept : ∃ es, Sequence.kept h c = .ok es := by
    simp only [Sequence.length, Sequence.storage, hp, ok_bind] at hl
    simp only [Sequence.kept, Sequence.storage, hp, ok_bind]
    cases s with
    | bytes | word => exact ⟨_, rfl⟩
    | pair id | array id =>
      obtain ⟨b, hb, _⟩ := bind_eq_ok_iff.1 hl
      simp only [Sequence.storedElements, hb, ok_bind]
      exact Buffer.cells_of_elementKind (hbuf id (by simp) b hb)
  obtain ⟨es, hes⟩ := hkept
  rw [Sequence.length_eq hes] at hl
  exact ⟨es, hes, Except.ok.inj hl⟩

theorem elements (hk : c.kind.isSequence = true) : h.Excusable c (Sequence.elements h c) := by
  cases hl : Sequence.length h c with
  | error e =>
    intro e' he'
    simp only [Sequence.elements, hl] at he'
    cases he'
    exact hs.length hk e hl
  | ok n =>
    obtain ⟨es, hes, _⟩ := hs.kept_of_length hk hl
    rw [Sequence.elements_eq hes]
    exact excusable_ok _

theorem parts (hk : c.kind = .pair) : h.Excusable c (Pair.parts h c) := by
  simp only [Shaped, hk] at hs
  obtain ⟨id, hp, hbuf⟩ := hs
  simp only [Pair.parts, hp]
  apply (excusable_read (by simp [Cell.references, hp])).bind
  intro b hb
  have hkind := (hbuf b hb).2
  cases hc : b.contents with
  | pairing x y =>
    simp only [Buffer.cells, hc, ok_bind]
    exact excusable_ok _
  | bytes | text | cells => simp [Buffer.elementKind, hc, Contents.elementKind] at hkind

theorem varlist (hk : c.kind.isContext = true) :
    ∃ v, Context.varlist c = .ok v ∧ v ∈ c.references ∧ h.VarlistAt v := by
  have hv : ∃ v, Context.varlist c = .ok v ∧ h.VarlistAt v := by
    rcases Kind.isContext_iff.1 hk with hk | hk | hk | hk
    case inr.inr.inr =>
      simp only [Shaped, hk] at hs
      obtain ⟨v, l, hp, hv⟩ := hs
      exact ⟨v, by simp [Context.varlist, hp], hv⟩
    all_goals
      simp only [Shaped, hk] at hs
      obtain ⟨v, hp, hv⟩ := hs
      exact ⟨v, by simp [Context.varlist, hp], hv⟩
  obtain ⟨v, hcv, hv⟩ := hv
  exact ⟨v, hcv, Context.mem_references_of_varlist hcv, hv⟩

theorem pairs (hk : c.kind = .map) : h.Excusable c (Map.pairs h c) := by
  simp only [Shaped, hk] at hs
  obtain ⟨id, hp, hbuf⟩ := hs
  simp only [Map.pairs, Map.pairlist, hp, ok_bind]
  apply (excusable_read (by simp [Cell.references, hp])).bind
  intro b hb
  obtain ⟨cs, hcs⟩ := Buffer.cells_of_elementKind (Or.inl (hbuf b hb).1)
  rw [hcs]
  exact excusable_ok _

theorem spec (hk : c.kind = .parameter) : h.Excusable c (Parameter.spec h c) := by
  simp only [Shaped, hk] at hs
  obtain ⟨spec, m, t, f, hp, hbuf⟩ := hs
  cases spec with
  | none =>
    simp only [Parameter.spec, hp]
    exact excusable_ok _
  | some id =>
    simp only [Parameter.spec, hp]
    apply excusable_cells (by simp [Cell.references, hp])
    intro b hb
    exact Or.inl (hbuf id rfl b hb).2

theorem label (hk : c.kind = .frame) : h.Excusable c (Frame.label h c) := by
  simp only [Shaped, hk] at hs
  obtain ⟨v, l, hp, _⟩ := hs
  simp only [Frame.label, Frame.lens, hp, ok_bind]
  cases l with
  | label s => exact excusable_ok _
  | phase p =>
    apply (excusable_read (by simp [Cell.references, hp])).bind
    intro b _
    exact excusable_ok _

end Heap.Shaped

namespace Context

variable {v : BufferId}

theorem keyCells_excusable (hid : v ∈ c.references) (hv : h.VarlistAt v) :
    h.Excusable c (keyCells h v) := by
  cases hb : h.read v with
  | error e =>
    intro e' he'
    simp only [keyCells, keylist, hb] at he'
    cases he'
    exact excusable_read hid e hb
  | ok b =>
    obtain ⟨_, k, hk, hkeys⟩ := hv b hb
    simp only [keyCells, keylist, hb, ok_bind, hk, pure_eq_ok]
    cases hr : h.read k with
    | error e =>
      intro e' he'
      cases he'
      have hun : h.isReadable k = false := by simp [isReadable, hr, Except.isOk, Except.toBool]
      rw [read_eq_error hr]
      exact .keysFreed hid hb hk hun
    | ok keys =>
      obtain ⟨cs, hcs⟩ := Buffer.cells_of_elementKind (Or.inl (hkeys keys hr).1)
      simp only [ok_bind, hcs]
      exact excusable_ok cs

theorem read_of_keys {ks : List Symbol} (hp : c.payload = .context v)
    (hk : keys h c = .ok ks) : ∃ b, h.read v = .ok b := by
  simp only [keys, varlist, hp, ok_bind] at hk
  obtain ⟨_, hcells, _⟩ := bind_eq_ok_iff.1 hk
  obtain ⟨_, hlist, _⟩ := bind_eq_ok_iff.1 hcells
  obtain ⟨b, hb, _⟩ := bind_eq_ok_iff.1 hlist
  exact ⟨b, hb⟩

/-- The variables are as many as their keys. -/
theorem cells_of_keyCells {ks : List Cell} (hv : h.VarlistAt v) (hk : keyCells h v = .ok ks) :
    ∃ b vars, h.read v = .ok b ∧ b.cells = .ok vars ∧ vars.length = ks.length := by
  obtain ⟨k, hkl, hk⟩ := bind_eq_ok_iff.1 hk
  obtain ⟨keys, hread, hk⟩ := bind_eq_ok_iff.1 hk
  obtain ⟨b, hb, hkl⟩ := bind_eq_ok_iff.1 hkl
  obtain ⟨hkind, k', hbk, hkeys⟩ := hv b hb
  simp only [hbk] at hkl
  cases hkl
  obtain ⟨vars, hvars⟩ := Buffer.cells_of_elementKind (Or.inl hkind)
  refine ⟨b, vars, hb, hvars, ?_⟩
  rw [← Sequence.length_of_cells hvars, ← Sequence.length_of_cells hk]
  exact (hkeys keys hread).2.symm

/-- Reading a variable fails only as reading the keys does, or since the key is not there. -/
theorem read_error_cases {key : Symbol} {e : Fault} (hcv : varlist c = .ok v) (hv : h.VarlistAt v)
    (he : read h c key = .error e) :
    keys h c = .error e ∨ e = .missingKey ∧ ∃ ks, keys h c = .ok ks ∧ key ∉ ks := by
  cases hk : keyCells h v with
  | error e' =>
    simp only [read, slot, hcv, ok_bind, position, position?, hk, error_bind] at he
    cases he
    apply Or.inl
    simp only [keys, hcv, ok_bind, hk, error_bind]
  | ok ks =>
    obtain ⟨b, vars, hb, hvars, hlen⟩ := cells_of_keyCells hv hk
    simp only [read, slot, hcv, ok_bind, position, position?, hk, pure_eq_ok] at he
    cases hi : ks.findIdx? (·.symbol? == some key) with
    | none =>
      simp only [hi] at he
      cases he
      refine Or.inr ⟨rfl, ks.filterMap Cell.symbol?, ?_, ?_⟩
      · simp only [keys, hcv, ok_bind, hk, pure_eq_ok]
      · simp only [List.findIdx?_eq_none_iff, beq_eq_false_iff_ne] at hi
        intro hmem
        obtain ⟨d, hd, hsym⟩ := List.mem_filterMap.1 hmem
        exact hi d hd hsym
    | some i =>
      -- the variables are as many as the keys, so the position found is one of theirs
      have hlt : i < vars.length := by
        rw [hlen]
        exact (List.findIdx?_eq_some_iff_findIdx_eq.1 hi).1
      simp only [hi, hb, ok_bind, hvars, List.getElem?_eq_getElem hlt] at he
      cases he

end Context

theorem Map.read_of_pairs {ps : List (Cell × Cell)} (hp : c.payload = .map id)
    (hps : pairs h c = .ok ps) : ∃ b, h.read id = .ok b := by
  simp only [pairs, pairlist, hp, ok_bind] at hps
  obtain ⟨b, hb, _⟩ := bind_eq_ok_iff.1 hps
  exact ⟨b, hb⟩

theorem Heap.Shaped.keys (hs : h.Shaped c) (hk : c.kind.isContext = true) :
    h.Excusable c (Context.keys h c) := by
  obtain ⟨v, hcv, hid, hv⟩ := hs.varlist hk
  simp only [Context.keys, hcv, ok_bind]
  apply (Context.keyCells_excusable hid hv).bind
  intro ks _
  exact excusable_ok _

theorem Heap.Shaped.read (hs : h.Shaped c) (hk : c.kind.isContext = true) {key : Symbol}
    {e : Fault} (he : Context.read h c key = .error e) :
    Context.keys h c = .error e ∨
      e = .missingKey ∧ ∃ ks, Context.keys h c = .ok ks ∧ key ∉ ks := by
  obtain ⟨v, hcv, _, hv⟩ := hs.varlist hk
  exact Context.read_error_cases hcv hv he

/-- A key that is there names a variable that can be read. -/
theorem Heap.Shaped.read_of_mem {key : Symbol} {ks : List Symbol} (hs : h.Shaped c)
    (hk : c.kind.isContext = true) (hks : Context.keys h c = .ok ks) (hmem : key ∈ ks) :
    ∃ d, Context.read h c key = .ok d := by
  cases hd : Context.read h c key with
  | ok d => exact ⟨d, rfl⟩
  | error e =>
    rcases hs.read hk hd with he | ⟨_, ks', hks', hnot⟩
    · rw [hks] at he
      cases he
    · rw [hks] at hks'
      cases hks'
      exact absurd hmem hnot

theorem Heap.Typed.offers {r : Role} (ht : h.Typed R) (hr : R id = some r) :
    h.Offers id r.Shape :=
  fun b hb => (ht.fits id r b hr hb).shape

theorem Heap.Consistent.varlistAt {v k : BufferId} (hc : h.Consistent R)
    (hv : R v = some (.varlist k)) : h.VarlistAt v := by
  intro b hb
  obtain ⟨hkind, hkeys, _⟩ := hc.offers hv b hb
  refine ⟨hkind, k, hkeys, ?_⟩
  intro kb hkb
  exact ⟨hc.offers (hc.keylist v k hv) kb hkb, (hc.parallel v k b kb hv hb hkb).symm⟩

/-- Typed cells of a consistent heap are in shape. -/
theorem Heap.Consistent.shaped (hc : h.Consistent R) (ht : c.Typed R) : h.Shaped c := by
  unfold Cell.Typed at ht
  cases hp : c.payload with
  | empty =>
    rw [hp] at ht
    rcases ht with hk | hk <;> simp only [Shaped, hk, hp]
  | integer i =>
    rw [hp] at ht
    simp only [Shaped, ht]
    exact ⟨i, hp⟩
  | decimal d =>
    rw [hp] at ht
    rcases ht with hk | hk <;> simp only [Shaped, hk] <;> exact ⟨d, hp⟩
  | inline b =>
    rw [hp] at ht
    simp only [Shaped, ht.1]
    exact Or.inl ⟨b, hp, ht.2⟩
  | word s =>
    rw [hp] at ht
    simp only [Shaped, ht]
    exact ⟨s, hp⟩
  | series id i =>
    rw [hp] at ht
    obtain ⟨r, hr, hback⟩ := ht
    have hbuf := hc.offers hr
    cases r with
    | text =>
      have hseries : h.SeriesOf .text c := ⟨id, i, hp, hbuf⟩
      rcases hback with hk | hk
      · rcases Kind.isString_iff.1 hk with hk | hk | hk | hk | hk <;> simp only [Shaped, hk] <;>
          exact hseries
      · simp only [Shaped, hk]
        exact Or.inr hseries
    | bytes =>
      have hk : c.kind = .blob := hback
      simp only [Shaped, hk]
      exact ⟨id, i, hp, hbuf⟩
    | list =>
      have hseries : h.SeriesOf .cells c := ⟨id, i, hp, hbuf⟩
      have hk : c.kind.isList = true := hback
      rcases Kind.isList_iff.1 hk with hk | hk | hk <;> simp only [Shaped, hk] <;> exact hseries
    | sequence | pair | varlist | keylist | pairlist | body => exact hback.elim
  | sequence s =>
    simp only [hp] at ht
    have hseq : c.kind.isSequence = true ∧
        (∀ id, s = .pair id →
          h.Offers id fun b => b.frozen = true ∧ b.elementKind = .pairing) ∧
        (∀ id, s = .array id →
          h.Offers id fun b => b.frozen = true ∧ b.elementKind = .cells) := by
      cases s with
      | bytes | word => exact ⟨ht, by simp, by simp⟩
      | pair id =>
        refine ⟨ht.1, ?_, by simp⟩
        intro id' he b hb
        cases he
        have hshape := hc.offers ht.2 b hb
        exact ⟨hshape.1, hshape.2.1⟩
      | array id =>
        refine ⟨ht.1, by simp, ?_⟩
        intro id' he b hb
        cases he
        have hshape := hc.offers ht.2 b hb
        exact ⟨hshape.1, hshape.2.1⟩
    obtain ⟨hk, hbufs⟩ := hseq
    rcases Kind.isSequence_iff.1 hk with hk | hk | hk <;> simp only [Shaped, hk] <;>
      exact ⟨s, hp, hbufs⟩
  | pairing id =>
    rw [hp] at ht
    simp only [Shaped, ht.1]
    exact ⟨id, hp, hc.offers ht.2⟩
  | context v =>
    rw [hp] at ht
    obtain ⟨hk, k, hv⟩ := ht
    have hvar := hc.varlistAt hv
    rcases hk with hk | hk | hk <;> simp only [Shaped, hk] <;> exact ⟨v, hp, hvar⟩
  | frame v l =>
    rw [hp] at ht
    obtain ⟨hk, k, hv⟩ := ht
    simp only [Shaped, hk]
    exact ⟨v, l, hp, hc.varlistAt hv⟩
  | parameter spec m t f =>
    rw [hp] at ht
    simp only [Shaped, ht.1]
    exact ⟨spec, m, t, f, hp, fun id hid => hc.offers (ht.2 id hid)⟩
  | handle a n =>
    rw [hp] at ht
    simp only [Shaped, ht]
    exact ⟨a, n, hp⟩
  | map id =>
    rw [hp] at ht
    simp only [Shaped, ht.1]
    refine ⟨id, hp, ?_⟩
    intro b hb
    have hshape := hc.offers ht.2 b hb
    refine ⟨hshape.1, ?_⟩
    obtain ⟨cs, hcs⟩ := Buffer.cells_of_elementKind (Or.inl hshape.1)
    rw [Sequence.length_of_cells hcs, ← Buffer.cells_eq_ok hcs]
    exact hshape.2

/-- What a reader takes out of a cell is typed. -/
theorem Heap.Within.typed {d : Cell} (hw : h.Within c d) (hc : h.Consistent R) :
    d.Typed R := by
  cases hw with
  | stored _ hb he binding =>
    have ht := hc.stored _ _ (Heap.read_eq_ok_iff.1 hb).1 _ he
    exact Cell.Rehead.typed ⟨rfl, rfl⟩ ht
  | integer i => exact rfl
  | blank => exact Or.inl rfl
  | word s binding => exact rfl

end CellHeap
