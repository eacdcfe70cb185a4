import CellHeap.Proofs.Cell.Header
import CellHeap.Proofs.Heap.Lifetime
import CellHeap.Proofs.Sequence.Storage
import CellHeap.Proofs.Session.Payload

/-!
# Sequences do not show how they are stored

A short form rebuilds its elements from bytes or from a symbol, so it is chosen
only where that gives back every part of them. Buffers of sequences are frozen
and managed from the start, so what a sequence keeps lasts as long as its buffer
is not dropped. Together a sequence reads as the list it was made of, in every
form and after every run.
-/

set_option autoImplicit false

namespace CellHeap

structure Cell.Regular (c : Cell) : Prop extends c.Faithful where
  blank : c.kind = .blank → c.payload = .empty

namespace Sequence

variable {h : Heap} {c : Cell} {es : List Cell} {k : Kind}

theorem eq_bare {e : Cell} (hb : e.isBare = true) (hp : isPristine e = true) :
    e = .bare e.kind e.payload := by
  simp only [Cell.isBare, Bool.and_eq_true, beq_iff_eq, Option.isNone_iff_eq_none] at hb
  simp only [isPristine, Bool.and_eq_true, beq_iff_eq, Option.isNone_iff_eq_none] at hp
  cases e
  simp_all [Cell.bare, Flags.none]

theorem ofNat_byte {i : Int64} (h0 : 0 ≤ i.toInt) (h1 : i.toInt ≤ 255) :
    Int64.ofNat i.toInt.toNat.toUInt8.toNat = i := by
  have hn : i.toInt.toNat.toUInt8.toNat = i.toInt.toNat := by
    simp only [Nat.toUInt8, UInt8.toNat_ofNat']
    omega
  apply Int64.toInt_inj.1
  rw [hn, Int64.toInt_ofNat_of_lt (by omega)]
  omega

theorem integer_of_byte? {e : Cell} {x : UInt8} (hb : e.isBare = true) (hf : e.Faithful)
    (hx : byte? e = some x) : e = .integer (Int64.ofNat x.toNat) := by
  by_cases hp : isPristine e = true
  · simp only [byte?, hp, if_true] at hx
    split at hx
    · rename_i i hi
      split at hx
      · rename_i hrange
        cases hx
        rw [ofNat_byte hrange.1 hrange.2, eq_bare hb hp, hf.integer i hi, hi]
        rfl
      · cases hx
    · cases hx
  · simp [byte?, hp] at hx

theorem map_of_bytes? {bytes : List UInt8} (hb : ∀ e ∈ es, e.isBare = true)
    (hf : ∀ e ∈ es, e.Faithful) (hx : es.mapM byte? = some bytes) :
    bytes.map (fun x => Cell.integer (Int64.ofNat x.toNat)) = es := by
  induction es generalizing bytes with
  | nil =>
    cases hx
    rfl
  | cons e es ih =>
    simp only [List.mapM_cons, Option.bind_eq_bind, Option.bind_eq_some_iff] at hx
    obtain ⟨x, he, xs, hes, hxs⟩ := hx
    cases hxs
    have htail := ih (fun d hd => hb d (by simp [hd])) (fun d hd => hf d (by simp [hd])) hes
    rw [List.map_cons, htail, ← integer_of_byte? (hb e (by simp)) (hf e (by simp)) he]

def Restored (e e' : Cell) : Prop :=
  e' = e ∨ isPristine e = true ∧ e.isBlank = true ∧ e' = .blank

theorem restored_refl (es : List Cell) : List.Forall₂ Restored es es :=
  List.forall₂_same.2 fun _ _ => Or.inl rfl

theorem Restored.isBlank {e e' : Cell} (hr : Restored e e') : e'.isBlank = e.isBlank := by
  rcases hr with rfl | ⟨_, he, rfl⟩
  · rfl
  · exact he.symm

/-- A regular blank is a plain one. -/
theorem Restored.eq {e e' : Cell} (hr : Restored e e') (hb : e.isBare = true) (hg : e.Regular) :
    e' = e := by
  rcases hr with rfl | ⟨hp, he, rfl⟩
  · rfl
  · have hk : e.kind = .blank := by
      simp only [Cell.isBlank, Bool.and_eq_true, beq_iff_eq] at he
      exact he.1
    rw [eq_bare hb hp, hg.blank hk, hk]
    rfl

theorem eq_of_restored {es' : List Cell} (hr : List.Forall₂ Restored es es')
    (hb : ∀ e ∈ es, e.isBare = true) (hg : ∀ e ∈ es, e.Regular) : es' = es := by
  induction hr with
  | nil => rfl
  | @cons e e' es es' he _ ih =>
    rw [he.eq (hb e (by simp)) (hg e (by simp)),
      ih (fun d hd => hb d (by simp [hd])) (fun d hd => hg d (by simp [hd]))]

theorem eq_word {e : Cell} {s : Symbol} (hb : e.isBare = true) (hp : isPristine e = true)
    (hf : e.Faithful) (he : e.symbol? = some s) : e = .word s := by
  have hw : e.payload = .word s := by
    unfold Cell.symbol? at he
    split at he
    · cases he
      assumption
    · cases he
  rw [eq_bare hb hp, hf.word s hw, hw]
  rfl

theorem restored_of_wordStorage? {s : Storage} (hb : ∀ e ∈ es, e.isBare = true)
    (hf : ∀ e ∈ es, e.Faithful) (hs : wordStorage? es = some s) :
    ∃ es', storedElements h s = .ok es' ∧ List.Forall₂ Restored es es' := by
  unfold wordStorage? at hs
  split at hs
  · rename_i x y
    split at hs
    · rename_i hp
      have hpp : isPristine x = true ∧ isPristine y = true := by simpa using hp
      split at hs
      · rename_i hx hy
        obtain ⟨w, hw, hside⟩ := Option.map_eq_some_iff.1 hs
        subst hside
        have hyw := eq_word (hb y (by simp)) hpp.2 (hf y (by simp)) hw
        exact ⟨_, rfl, .cons (Or.inr ⟨hpp.1, hx, rfl⟩) (.cons (Or.inl hyw.symm) .nil)⟩
      · rename_i hx hy
        obtain ⟨w, hw, hside⟩ := Option.map_eq_some_iff.1 hs
        subst hside
        have hxw := eq_word (hb x (by simp)) hpp.1 (hf x (by simp)) hw
        exact ⟨_, rfl, .cons (Or.inl hxw.symm) (.cons (Or.inr ⟨hpp.2, hy, rfl⟩) .nil)⟩
      · cases hs
    · cases hs
  · cases hs

/-- A form without a buffer gives back the elements it was chosen for. -/
theorem restored_of_inlineStorage? {s : Storage} {limit : Nat} (hb : ∀ e ∈ es, e.isBare = true)
    (hf : ∀ e ∈ es, e.Faithful) (hs : inlineStorage? es limit = some s) :
    ∃ es', storedElements h s = .ok es' ∧ List.Forall₂ Restored es es' := by
  unfold inlineStorage? at hs
  split at hs
  · rename_i b hbytes
    cases hs
    unfold inlineBytes? at hbytes
    split at hbytes
    · cases hbytes
    · obtain ⟨bytes, hx, hof⟩ := Option.bind_eq_some_iff.1 hbytes
      have hmap := map_of_bytes? hb hf hx
      refine ⟨es, ?_, restored_refl es⟩
      simp [storedElements, InlineBytes.bytes_of_ofBytes? hof, hmap]
  · exact restored_of_wordStorage? hb hf hs

structure Keeps (h : Heap) (c : Cell) (es : List Cell) : Prop where
  kind : c.kind.isSequence = true
  nonempty : es ≠ []
  kept : kept h c = .ok es
  owned : ∀ id ∈ c.references, ∃ b, h.read id = .ok b ∧ b.frozen = true ∧ b.managed = true

theorem run_keeps (ops : List Operation) (hs : h.Sound) (hk : Keeps h c es)
    (hops : ∀ id ∈ c.references, ∀ op ∈ ops, op.Spares id) : Keeps (h.run ops) c es := by
  have hread : ∀ id ∈ c.references, (h.run ops).read id = h.read id := by
    intro id hid
    obtain ⟨b, hb, hz, hm⟩ := hk.owned id hid
    rw [hb, Heap.run_read ops hs hb hz hm (hops id hid)]
  constructor
  · exact hk.kind
  · exact hk.nonempty
  · rw [kept_congr fun id hid => Heap.sight_of_read (hread id hid), hk.kept]
  · intro id hid
    rw [hread id hid]
    exact hk.owned id hid

theorem Keeps.setBinding (hk : Keeps h c es) (b : Option Binding) :
    Keeps h { c with binding := b } es :=
  ⟨hk.kind, hk.nonempty, hk.kept, hk.owned⟩

theorem isBindable_of_isSequence (hk : k.isSequence = true) : k.isBindable = true := by
  cases k <;> first | rfl | cases hk

/-- Elements put in a frozen buffer of their own are kept there. -/
theorem allocateFrozen_keeps {x : Contents} {form : BufferId → Storage} (hs : h.Sound)
    (hk : k.isSequence = true) (hn : es ≠ [])
    (hx : ∀ b : Buffer, b.contents = x → b.cells = .ok es)
    (hf : form = .pair ∨ form = .array) : ∃ s h',
    (form <$> Heap.allocateFrozen x) h = .ok s h' ∧ h'.Sound ∧ h'.symbols = h.symbols ∧
      Keeps h' (.bare k (.sequence s)) es := by
  obtain ⟨id, h', b, ha, hs', hsym, hread, hc, hz, hm⟩ := Heap.allocateFrozen_apply hs x
  have hmap : (form <$> Heap.allocateFrozen x) h = .ok (form id) h' := by
    simp only [Functor.map, EStateM.map, ha]
  refine ⟨form id, h', hmap, hs', hsym, hk, hn, ?_, ?_⟩
  · rcases hf with hf | hf <;> subst hf <;>
      simp [kept, storage, Cell.bare, storedElements, hread, hx b hc]
  · intro j hj
    have hji : j = id := by
      rcases hf with hf | hf <;> subst hf <;> simpa [Cell.references, Cell.bare] using hj
    subst hji
    exact ⟨b, hread, hz, hm⟩

/-- In every form a sequence keeps what it was made of, up to the payload of a blank. -/
theorem store_restores (m : Compression) (hs : h.Sound) (hk : k.isSequence = true) (hn : es ≠ [])
    (hb : ∀ e ∈ es, e.isBare = true) (hf : ∀ e ∈ es, e.Faithful) : ∃ s h' es',
    store m es h = .ok s h' ∧ h'.Sound ∧ h'.symbols = h.symbols ∧
      Keeps h' (.bare k (.sequence s)) es' ∧ List.Forall₂ Restored es es' := by
  rcases store_apply m es h with hinline | hpair | harray
  · obtain ⟨s, hi, hst⟩ := hinline
    obtain ⟨es', hes', hr⟩ := restored_of_inlineStorage? (h := h) hb hf hi
    have hn' : es' ≠ [] := by
      rintro rfl
      cases hr
      exact hn rfl
    refine ⟨s, h, es', hst, hs, rfl, ⟨hk, hn', hes', ?_⟩, hr⟩
    intro id hid
    rw [references_of_inlineStorage? hi] at hid
    cases hid
  · obtain ⟨a, b, hab, hst⟩ := hpair
    have hcells : ∀ x : Buffer, x.contents = .pairing a b → x.cells = .ok es := by
      intro x hx
      simp [Buffer.cells, hx, hab]
    obtain ⟨s, h', hx, hs', hsym, hkeep⟩ := allocateFrozen_keeps hs hk hn hcells (Or.inl rfl)
    exact ⟨s, h', es, hst.trans hx, hs', hsym, hkeep, restored_refl es⟩
  · have hcells : ∀ x : Buffer, x.contents = .cells es → x.cells = .ok es := by
      intro x hx
      simp [Buffer.cells, hx]
    obtain ⟨s, h', hx, hs', hsym, hkeep⟩ := allocateFrozen_keeps hs hk hn hcells (Or.inr rfl)
    exact ⟨s, h', es, harray.trans hx, hs', hsym, hkeep, restored_refl es⟩

theorem store_keeps (m : Compression) (hs : h.Sound) (hk : k.isSequence = true) (hn : es ≠ [])
    (hb : ∀ e ∈ es, e.isBare = true) (hr : ∀ e ∈ es, e.Regular) : ∃ s h',
    store m es h = .ok s h' ∧ h'.Sound ∧ h'.symbols = h.symbols ∧
      Keeps h' (.bare k (.sequence s)) es := by
  obtain ⟨s, h', es', hst, hs', hsym, hkeep, hres⟩ :=
    store_restores m hs hk hn hb fun e he => (hr e he).toFaithful
  rw [eq_of_restored hres hb hr] at hkeep
  exact ⟨s, h', hst, hs', hsym, hkeep⟩

theorem make_rejected {why : Rejection} (m : Compression) (hv : validate h k es = .error why) :
    make k es m h = .ok (.error why) h := by
  simp only [make, HeapM.bind_apply, HeapM.get_apply, hv]
  rfl

theorem make_of_store {m : Compression} {s : Storage} {h' : Heap} (hv : validate h k es = .ok ())
    (hst : store m es h = .ok s h') : make k es m h = .ok (.ok (.bare k (.sequence s))) h' := by
  simp only [make, HeapM.bind_apply, HeapM.get_apply, hv, hst]
  rfl

/-- Admitted elements make a bare cell that keeps them, and no symbol is added. -/
theorem make_stores (m : Compression) (hs : h.Sound) (hr : ∀ e ∈ es, e.Regular)
    (hv : validate h k es = .ok ()) : ∃ s h',
    make k es m h = .ok (.ok (.bare k (.sequence s))) h' ∧ h'.Sound ∧ h'.symbols = h.symbols ∧
      Keeps h' (.bare k (.sequence s)) es := by
  obtain ⟨hk, _, _⟩ := validate_eq_ok hv
  obtain ⟨hn, hb⟩ := bare_of_validate hv
  obtain ⟨s, h', hst, hs', hsym, hkeep⟩ := store_keeps m hs hk hn hb hr
  exact ⟨s, h', make_of_store hv hst, hs', hsym, hkeep⟩

theorem make_keeps (m : Compression) (hs : h.Sound) (hr : ∀ e ∈ es, e.Regular)
    (hv : validate h k es = .ok ()) : ∃ c h',
    make k es m h = .ok (.ok c) h' ∧ h'.Sound ∧ validate h' k es = .ok () ∧ Keeps h' c es := by
  obtain ⟨s, h', hm, hs', hsym, hkeep⟩ := make_stores m hs hr hv
  exact ⟨.bare k (.sequence s), h', hm, hs', (validate_congr hsym).trans hv, hkeep⟩

theorem makeSequence_after {m : Compression} {r : Except Rejection Cell} {h' : Heap}
    (hm : make k es m h = .ok r h') : Operation.after (.makeSequence k es m) h = h' := by
  simp only [Operation.after, Operation.perform, HeapM.bind_apply, hm]
  cases r <;> rfl

structure Shows (h : Heap) (c : Cell) (es : List Cell) : Prop where
  length : length h c = .ok es.length
  element : ∀ i e, es[i]? = some e → elementAt h c i =
    .ok (if e.kind = .word ∧ e.binding = none then { e with binding := c.binding } else e)
  beyond : ∀ i, es.length ≤ i → elementAt h c i = .error (.outOfRange i es.length)

theorem inherit_eq (b : Option Binding) (e : Cell) :
    inherit b e = if e.kind = .word ∧ e.binding = none then { e with binding := b } else e := by
  simp [inherit]

theorem inherit_none (e : Cell) : inherit none e = e := by
  rw [inherit_eq]
  split
  · rename_i he
    rw [← he.2]
  · rfl

theorem Keeps.shows (hk : Keeps h c es) : Shows h c es := by
  constructor
  · exact length_eq hk.kept
  · intro i e hi
    rw [elementAt_eq hk.kept hi, inherit_eq]
  · intro i hi
    exact elementAt_beyond hk.kept hi

/-- Whatever the compression, a sequence of cells in which no blank carries a payload is refused
for the same reason or reads as the given cells, under every binding and after every run that does
not drop its buffer. -/
theorem make_transparent (config : Config) (before : List Operation) (k : Kind)
    (es : List Cell) (hes : ∀ e ∈ es, e.Buildable)
    (hblank : ∀ e ∈ es, e.kind = .blank → e.payload = .empty) (m₁ m₂ : Compression) :
    let h := (Heap.new config).run before
    (∃ why, make k es m₁ h = .ok (.error why) h ∧ make k es m₂ h = .ok (.error why) h) ∨
    ∃ c₁ h₁ c₂ h₂, make k es m₁ h = .ok (.ok c₁) h₁ ∧ make k es m₂ h₁ = .ok (.ok c₂) h₂ ∧
      ∀ b, ∃ d₁ d₂, c₁.setBinding b = .ok d₁ ∧ c₂.setBinding b = .ok d₂ ∧
        d₁.binding = b ∧ d₂.binding = b ∧
        ∀ ops,
          let g := h₂.run ops
          ((∀ id ∈ d₁.references, ∀ op ∈ ops, op.Spares id) → Shows g d₁ es) ∧
          ((∀ id ∈ d₂.references, ∀ op ∈ ops, op.Spares id) → Shows g d₂ es) ∧
          ((∀ id ∈ d₁.references ++ d₂.references, ∀ op ∈ ops, op.Spares id) →
            elements g d₁ = elements g d₂ ∧ blankSide g d₁ = blankSide g d₂ ∧
              isRefinement g d₁ = isRefinement g d₂) := by
  intro h
  have hs : h.Sound := Heap.reachable_sound config before
  have hr : ∀ e ∈ es, e.Regular := by
    intro e he
    exact ⟨(hes e he).faithful, hblank e he⟩
  cases hv : validate h k es with
  | error why => exact Or.inl ⟨why, make_rejected m₁ hv, make_rejected m₂ hv⟩
  | ok u =>
    obtain ⟨c₁, h₁, hm₁, hs₁, hv₁, hk₁⟩ := make_keeps m₁ hs hr hv
    obtain ⟨c₂, h₂, hm₂, hs₂, _, hk₂⟩ := make_keeps m₂ hs₁ hr hv₁
    -- making the second sequence is itself an operation that spares the first
    have hk₁₂ : Keeps h₂ c₁ es := by
      have hrun : h₁.run [.makeSequence k es m₂] = h₂ := makeSequence_after hm₂
      rw [← hrun]
      apply run_keeps _ hs₁ hk₁
      intro id _ op hop
      rw [List.mem_singleton.1 hop]
      trivial
    refine Or.inr ⟨c₁, h₁, c₂, h₂, hm₁, hm₂, ?_⟩
    intro b
    refine ⟨_, _, Cell.setBinding_of_bindable (isBindable_of_isSequence hk₁.kind),
      Cell.setBinding_of_bindable (isBindable_of_isSequence hk₂.kind), rfl, rfl, ?_⟩
    intro ops g
    refine ⟨?_, ?_, ?_⟩
    · intro hops
      exact (run_keeps ops hs₂ (hk₁₂.setBinding b) hops).shows
    · intro hops
      exact (run_keeps ops hs₂ (hk₂.setBinding b) hops).shows
    · intro hops
      have hg₁ := run_keeps ops hs₂ (hk₁₂.setBinding b) fun id hid =>
        hops id (List.mem_append_left _ hid)
      have hg₂ := run_keeps ops hs₂ (hk₂.setBinding b) fun id hid =>
        hops id (List.mem_append_right _ hid)
      refine ⟨?_, ?_, ?_⟩
      · rw [elements_eq hg₁.kept, elements_eq hg₂.kept]
      · rw [blankSide_eq hg₁.kept hg₁.nonempty, blankSide_eq hg₂.kept hg₂.nonempty]
      · rw [isRefinement_eq hg₁.kind hg₁.kept hg₁.nonempty,
          isRefinement_eq hg₂.kind hg₂.kept hg₂.nonempty]

theorem make_transparent_path :
    let es := [Cell.blank, .word ⟨0⟩]
    let h := (Heap.new {}).run [.makeWord "foo"]
    (∀ e ∈ es, e.Buildable ∧ (e.kind = .blank → e.payload = .empty)) ∧ ∃ c₁ h₁ c₂ h₂,
      make .path es .adaptive h = .ok (.ok c₁) h₁ ∧ make .path es .never h₁ = .ok (.ok c₂) h₂ ∧
      c₁.references = [] ∧ c₂.references = [⟨0, 0⟩] ∧
      ∀ b, ∃ d₁ d₂, c₁.setBinding b = .ok d₁ ∧ c₂.setBinding b = .ok d₂ ∧
        elements h₂ d₁ = elements h₂ d₂ := by
  intro es h
  have hes : ∀ e ∈ es, e.Buildable ∧ (e.kind = .blank → e.payload = .empty) := by
    intro e he
    rcases List.mem_pair.1 he with he | he <;> subst he
    · exact ⟨⟨{}, _, _, .primitive .start .blank, by simp⟩, fun _ => rfl⟩
    · exact ⟨⟨{}, _, _, .primitive .start (.word ⟨0⟩), by simp⟩, fun hk => by cases hk⟩
  have hshort : make .path es .adaptive h =
      .ok (.ok (.bare .path (.sequence (.word ⟨0⟩ .leading)))) h :=
    make_of_store (by decide +kernel) (store_inline (by decide +kernel))
  have hlong : make .path es .never h = .ok (.ok (.bare .path (.sequence (.array ⟨0, 0⟩))))
      ((make .path es .never).after h) := HeapM.eq_ok_after (by decide +kernel)
  refine ⟨hes, ?_⟩
  rcases make_transparent {} [.makeWord "foo"] .path es (fun e he => (hes e he).1)
    (fun e he => (hes e he).2) .adaptive .never with hrej | hok
  · obtain ⟨why, hwhy, _⟩ := hrej
    rw [hshort] at hwhy
    cases hwhy
  · obtain ⟨c₁, h₁, c₂, h₂, hm₁, hm₂, hb⟩ := hok
    rw [hshort] at hm₁
    cases hm₁
    rw [hlong] at hm₂
    cases hm₂
    refine ⟨_, _, _, _, hshort, hlong, rfl, rfl, ?_⟩
    intro b
    obtain ⟨d₁, d₂, hd₁, hd₂, _, _, hops⟩ := hb b
    exact ⟨d₁, d₂, hd₁, hd₂, ((hops []).2.2 (by simp)).1⟩

/-- A blank that carries a text is not regular: beside a word the short form drops its payload,
which an array keeps. -/
theorem short_form_drops_payload :
    let x := Cell.bare .blank (.series ⟨0, 0⟩ 0)
    let es := [x, .word ⟨0⟩]
    let h := (Heap.new {}).run [.makeString .blank "x", .makeWord "foo"]
    (∀ e ∈ es, e.Buildable) ∧ ∃ c d h', make .path es .adaptive h = .ok (.ok c) h ∧
      make .path es .never h = .ok (.ok d) h' ∧
      elementAt h' c 0 = .ok .blank ∧ elementAt h' d 0 = .ok x ∧ Cell.blank ≠ x := by
  intro x es h
  have hmade : (Operation.makeString .blank "x").made (.new {}) = [x] := by decide +kernel
  have hsession : Session (fun _ _ => True) {} _
      ((Operation.makeString .blank "x").made (.new {}) ++ []) :=
    .perform .start trivial (by simp [Operation.cells])
  have hes : ∀ e ∈ es, e.Buildable := by
    intro e he
    rcases List.mem_pair.1 he with he | he <;> subst he
    · exact ⟨{}, _, _, hsession, by rw [hmade]; simp⟩
    · exact ⟨{}, _, _, .primitive .start (.word ⟨0⟩), by simp⟩
  refine ⟨hes, .bare .path (.sequence (.word ⟨0⟩ .leading)),
    .bare .path (.sequence (.array ⟨1, 0⟩)), (make .path es .never).after h,
    ?_, ?_, rfl, ?_, by decide⟩
  · exact make_of_store (by decide +kernel) (store_inline (by decide +kernel))
  · exact HeapM.eq_ok_after (by decide +kernel)
  · decide +kernel

end Sequence

end CellHeap
