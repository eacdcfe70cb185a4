import CellHeap.Proofs.Map.Identity
import CellHeap.Proofs.Sequence.Transparency

/-!
# Sequences as keys

A sequence is compared as a key by its elements, whatever form it is kept in, but
the elements themselves are compared as cells. Cells that are equal as keys are
equal as cells exactly if they agree in flags and binding and hold the same data,
where data that needs no buffer is the same as soon as it shows the same. So two
sequences of equal keys can be different keys: a text or a nested sequence in a
buffer of its own counts by its buffer once it stands in a sequence.
-/

set_option autoImplicit false

namespace CellHeap

theorem InlineBytes.utf8_of_text? {b : InlineBytes} {s : String} (hb : b.text? = some s) :
    Text.utf8 s = b.bytes := by
  unfold text? Text.ofUtf8? String.fromUTF8? at hb
  split at hb
  · cases hb
    simp [Text.utf8, String.fromUTF8]
  · cases hb

theorem InlineBytes.eq_of_text? {b c : InlineBytes} {s : String} (hb : b.text? = some s)
    (hc : c.text? = some s) : b = c := by
  have hbytes : b.bytes = c.bytes := (utf8_of_text? hb).symm.trans (utf8_of_text? hc)
  cases b
  cases c
  cases hbytes
  rfl

theorem cellsEqual_iff {xs ys : List Cell} :
    cellsEqual xs ys = true ↔ List.Forall₂ (fun x y => x.equals y = true) xs ys := by
  induction xs generalizing ys with
  | nil => cases ys <;> simp [cellsEqual]
  | cons x xs ih => cases ys <;> simp [cellsEqual, ih]

namespace Sequence

variable {h : Heap}

theorem bytes_eq_of_cellsEqual {b : Option Binding} {xs ys : List UInt8}
    (he : cellsEqual ((xs.map fun x => Cell.integer (Int64.ofNat x.toNat)).map (inherit b))
      ((ys.map fun x => Cell.integer (Int64.ofNat x.toNat)).map (inherit b)) = true) : xs = ys := by
  induction xs generalizing ys with
  | nil =>
    cases ys with
    | nil => rfl
    | cons => cases he
  | cons x xs ih =>
    cases ys with
    | nil => cases he
    | cons y ys =>
      simp only [List.map_cons, cellsEqual, Bool.and_eq_true] at he
      have hpayload := (Cell.equals_iff.1 he.1).2.2.2.2.1
      have hint : Int64.ofNat x.toNat = Int64.ofNat y.toNat := by
        simpa [inherit, Cell.integer, Cell.bare, Payload.equals] using hpayload
      have hnat := congrArg Int64.toInt hint
      have hx := x.toNat_lt
      have hy := y.toNat_lt
      rw [Int64.toInt_ofNat_of_lt (by omega), Int64.toInt_ofNat_of_lt (by omega)] at hnat
      rw [UInt8.toNat_inj.1 (Int.ofNat_inj.1 hnat), ih he.2]

/-- An integer never meets a word or a blank. -/
theorem bytes_ne_word (b : Option Binding) (xs : List UInt8) (w : Symbol) (side : Side) :
    cellsEqual ((xs.map fun x => Cell.integer (Int64.ofNat x.toNat)).map (inherit b))
      ((wordElements w side).map (inherit b)) = false := by
  rw [← Bool.not_eq_true]
  intro he
  cases xs <;> cases side <;>
    simp [wordElements, cellsEqual, Cell.equals_iff, kind_inherit, Cell.integer, Cell.word,
      Cell.blank, Cell.bare] at he

theorem word_eq_of_cellsEqual {b : Option Binding} {v w : Symbol} {side side' : Side}
    (he : cellsEqual ((wordElements v side).map (inherit b))
      ((wordElements w side').map (inherit b)) = true) : v = w ∧ side = side' := by
  cases side <;> cases side' <;>
    simp [wordElements, cellsEqual, Cell.equals_iff, inherit, Cell.word, Cell.blank, Cell.bare,
      Payload.equals] at he
  · exact ⟨he, rfl⟩
  · exact ⟨he, rfl⟩

/-- Forms without a buffer that give the same elements are the same. -/
theorem storage_eq_of_cellsEqual {x y : Cell} {s t : Storage} {es fs : List Cell}
    (hx : x.payload = .sequence s) (hy : y.payload = .sequence t) (hxr : x.references = [])
    (hyr : y.references = []) (hb : x.binding = y.binding) (hes : elements h x = .ok es)
    (hfs : elements h y = .ok fs) (he : cellsEqual es fs = true) : s = t := by
  have hkept : ∀ {c : Cell} {r : Storage}, c.payload = .sequence r →
      kept h c = storedElements h r := by
    intro c r hc
    simp [kept, storage, hc]
  cases s with
  | pair | array => simp [Cell.references, hx] at hxr
  | bytes u =>
    rw [elements_eq (hkept hx)] at hes
    cases hes
    cases t with
    | pair | array => simp [Cell.references, hy] at hyr
    | bytes v =>
      rw [elements_eq (hkept hy), ← hb] at hfs
      cases hfs
      have hbytes := bytes_eq_of_cellsEqual he
      cases u
      cases v
      cases hbytes
      rfl
    | word w side =>
      rw [elements_eq (hkept hy), ← hb] at hfs
      cases hfs
      rw [bytes_ne_word] at he
      cases he
  | word w side =>
    rw [elements_eq (hkept hx)] at hes
    cases hes
    cases t with
    | pair | array => simp [Cell.references, hy] at hyr
    | bytes v =>
      rw [elements_eq (hkept hy), ← hb] at hfs
      cases hfs
      have hsymm := cellsEqual_symm he
      rw [bytes_ne_word] at hsymm
      cases hsymm
    | word w' side' =>
      rw [elements_eq (hkept hy), ← hb] at hfs
      cases hfs
      obtain ⟨rfl, rfl⟩ := word_eq_of_cellsEqual he
      rfl

end Sequence

namespace Map

section Composite

variable {h : Heap} {x y : Cell} {xs ys : List Cell}

structure Alike (x y : Cell) : Prop where
  flags : x.flags = y.flags
  binding : x.binding = y.binding
  data : x.payload = y.payload ∨ x.references = [] ∧ y.references = []

theorem alike_of_equals (he : x.equals y = true) : Alike x y := by
  obtain ⟨_, _, _, hflags, hpayload, hbinding⟩ := Cell.equals_iff.1 he
  refine ⟨hflags, hbinding, ?_⟩
  rcases Payload.equals_iff.1 hpayload with ⟨u, v, hu, hv, _⟩ | ⟨hp, _⟩
  · right
    simp [Cell.references, hu, hv]
  · exact Or.inl hp

theorem kind_of_form (hf : form x = .rune) : x.kind = .rune := by
  by_cases hk : x.kind = .rune
  · exact hk
  · cases hp : x.payload <;> simp [form, hk, hp] at hf

theorem series_of_form (hf : form x = .series) : ∃ id i, x.payload = .series id i := by
  cases hp : x.payload with
  | series id i => exact ⟨id, i, rfl⟩
  | _ => by_cases hk : x.kind = .rune <;> simp [form, hk, hp] at hf

theorem sequence_of_form (hf : form x = .sequence) : ∃ s, x.payload = .sequence s := by
  cases hp : x.payload with
  | sequence s => exact ⟨s, rfl⟩
  | _ => by_cases hk : x.kind = .rune <;> simp [form, hk, hp] at hf

theorem inline_of_rune {s : String} (hk : x.kind = .rune) (hx : x.references = [])
    (ht : Strings.text h x = .ok s) : ∃ b, x.payload = .inline b ∧ b.text? = some s := by
  rw [Strings.text, if_pos hk, Strings.runeText] at ht
  cases hp : x.payload with
  | inline b =>
    refine ⟨b, rfl, ?_⟩
    cases hb : b.text? <;> simp [hp, hb] at ht
    rw [ht]
  | series id i => simp [Cell.references, hp] at hx
  | _ => simp [hp] at ht

/-- Data that needs no buffer is told apart by what it shows. -/
theorem payload_equals_of_face {f g : Face} (hform : form x = form y) (hf : face h x = .ok f)
    (hg : face h y = .ok g) (hfg : f.equals g = true) (hb : x.binding = y.binding)
    (hx : x.references = []) (hy : y.references = []) : x.payload.equals y.payload = true := by
  unfold face at hf hg
  cases hy' : form y with
  | payload =>
    rw [hform, hy'] at hf
    rw [hy'] at hg
    cases hf
    cases hg
    exact hfg
  | rune =>
    rw [hform, hy'] at hf
    rw [hy'] at hg
    obtain ⟨s, hs, hf⟩ := bind_eq_ok_iff.1 hf
    obtain ⟨t, ht, hg⟩ := bind_eq_ok_iff.1 hg
    cases hf
    cases hg
    have hst : s = t := by simpa [Face.equals] using hfg
    subst hst
    obtain ⟨b, hxb, hbs⟩ := inline_of_rune (kind_of_form (hform.trans hy')) hx hs
    obtain ⟨c, hyc, hcs⟩ := inline_of_rune (kind_of_form hy') hy ht
    rw [hxb, hyc, InlineBytes.eq_of_text? hbs hcs]
    exact Payload.equals_self rfl
  | series =>
    obtain ⟨id, i, hp⟩ := series_of_form hy'
    simp [Cell.references, hp] at hy
  | sequence =>
    rw [hform, hy'] at hf
    rw [hy'] at hg
    obtain ⟨es, hes, hf⟩ := bind_eq_ok_iff.1 hf
    obtain ⟨fs, hfs, hg⟩ := bind_eq_ok_iff.1 hg
    cases hf
    cases hg
    obtain ⟨s, hs⟩ := sequence_of_form (hform.trans hy')
    obtain ⟨t, ht⟩ := sequence_of_form hy'
    rw [hs, ht, Sequence.storage_eq_of_cellsEqual hs ht hx hy hb hes hfs hfg]
    exact Payload.equals_self rfl

/-- Among cells that are equal as keys, those are equal as cells that are alike. -/
theorem equals_iff_alike (hk : keysEqual h x y = .ok true) : x.equals y = true ↔ Alike x y := by
  refine ⟨alike_of_equals, ?_⟩
  rintro ⟨hflags, hbinding, hdata⟩
  rcases keysEqual_eq_ok_iff.1 hk with ⟨ho, f, g, hf, hg, hfg⟩ | ⟨_, hfalse⟩
  · have hparts := ho
    simp only [outline, Prod.mk.injEq] at hparts
    obtain ⟨hkind, hlift, hsigil, hform⟩ := hparts
    refine Cell.equals_iff.2 ⟨hkind, hlift, hsigil, hflags, ?_, hbinding⟩
    rcases hdata with hp | ⟨hx, hy⟩
    · have hself := keysEqual_trans hk (keysEqual_symm hk)
      have hnan := (keysEqual_self_iff.1 hself).2
      rw [← hp]
      apply Payload.equals_self
      simp only [holdsNaN, Bool.or_eq_false_iff] at hnan
      exact hnan.1
    · exact payload_equals_of_face hform hf hg hfg hbinding hx hy
  · cases hfalse

theorem cellsEqual_iff_alike (hk : List.Forall₂ (fun x y => keysEqual h x y = .ok true) xs ys) :
    cellsEqual xs ys = true ↔ List.Forall₂ Alike xs ys := by
  rw [cellsEqual_iff]
  induction hk with
  | nil => simp
  | cons hxy _ ih => simp only [List.forall₂_cons, equals_iff_alike hxy, ih]

/-- A sequence without a binding shows what it keeps. -/
theorem face_of_keeps {k : Kind} {s : Storage}
    (hs : Sequence.Keeps h (.bare k (.sequence s)) xs) :
    form (.bare k (.sequence s)) = .sequence ∧
      face h (.bare k (.sequence s)) = .ok (.elements xs) := by
  have hrune : k ≠ .rune := by
    rintro rfl
    cases hs.kind
  have hform : form (.bare k (.sequence s)) = .sequence := by simp [form, Cell.bare, hrune]
  have hmap : xs.map (Sequence.inherit none) = xs := by
    conv_rhs => rw [← List.map_id xs]
    exact List.map_congr_left fun e _ => Sequence.inherit_none e
  have helements : Sequence.elements h (.bare k (.sequence s)) = .ok xs := by
    rw [Sequence.elements_eq hs.kept]
    exact congrArg Except.ok hmap
  refine ⟨hform, ?_⟩
  rw [face, hform]
  simp [helements]

theorem keysEqual_of_keeps {k : Kind} {s t : Storage}
    (hs : Sequence.Keeps h (.bare k (.sequence s)) xs)
    (ht : Sequence.Keeps h (.bare k (.sequence t)) ys) :
    keysEqual h (.bare k (.sequence s)) (.bare k (.sequence t)) = .ok (cellsEqual xs ys) := by
  obtain ⟨hform, hface⟩ := face_of_keeps hs
  obtain ⟨hform', hface'⟩ := face_of_keeps ht
  refine keysEqual_eq_ok_iff.2 (Or.inl ⟨?_, _, _, hface, hface', rfl⟩)
  rw [outline, outline, hform, hform']
  rfl

/-- Two sequences made in any forms are equal as keys exactly if the cells they are made of are
equal as cells. If those are equal as keys, this is to say that they are alike. -/
theorem composite_keys (config : Config) (before : List Operation) (k : Kind) (xs ys : List Cell)
    (hxs : ∀ e ∈ xs, e.Buildable ∧ (e.kind = .blank → e.payload = .empty))
    (hys : ∀ e ∈ ys, e.Buildable ∧ (e.kind = .blank → e.payload = .empty))
    (hvx : Sequence.validate ((Heap.new config).run before) k xs = .ok ())
    (hvy : Sequence.validate ((Heap.new config).run before) k ys = .ok ()) (m₁ m₂ : Compression) :
    let h := (Heap.new config).run before
    ∃ s h₁ t h₂, Sequence.make k xs m₁ h = .ok (.ok s) h₁ ∧
      Sequence.make k ys m₂ h₁ = .ok (.ok t) h₂ ∧
      keysEqual h₂ s t = .ok (cellsEqual xs ys) ∧
      (List.Forall₂ (fun x y => keysEqual h x y = .ok true) xs ys →
        (keysEqual h₂ s t = .ok true ↔ List.Forall₂ Alike xs ys)) := by
  intro h
  have hs : h.Sound := Heap.reachable_sound config before
  have hregular : ∀ {es : List Cell},
      (∀ e ∈ es, e.Buildable ∧ (e.kind = .blank → e.payload = .empty)) → ∀ e ∈ es, e.Regular :=
    fun hes e he => ⟨(hes e he).1.faithful, (hes e he).2⟩
  obtain ⟨s, h₁, hm₁, hs₁, hsym, hk₁⟩ := Sequence.make_stores m₁ hs (hregular hxs) hvx
  have hvy₁ : Sequence.validate h₁ k ys = .ok () := (Sequence.validate_congr hsym).trans hvy
  obtain ⟨t, h₂, hm₂, _, _, hk₂⟩ := Sequence.make_stores m₂ hs₁ (hregular hys) hvy₁
  have hk₁₂ : Sequence.Keeps h₂ (.bare k (.sequence s)) xs := by
    have hrun : h₁.run [.makeSequence k ys m₂] = h₂ := Sequence.makeSequence_after hm₂
    rw [← hrun]
    apply Sequence.run_keeps _ hs₁ hk₁
    intro id _ op hop
    rw [List.mem_singleton.1 hop]
    trivial
  have hequal := keysEqual_of_keeps hk₁₂ hk₂
  refine ⟨_, h₁, _, h₂, hm₁, hm₂, hequal, ?_⟩
  intro hpairs
  rw [hequal, Except.ok.injEq]
  exact cellsEqual_iff_alike hpairs

/-- One text twice over, and two texts that are equal as keys in buffers of their own. -/
theorem composite_keys_texts :
    let a := Cell.bare .text (.series ⟨0, 0⟩ 0)
    let b := Cell.bare .text (.series ⟨1, 0⟩ 0)
    let h := (Heap.new {}).run [.makeString .text "x", .makeString .text "x"]
    (keysEqual h a a = .ok true ∧ ∃ s h₁ t h₂,
      Sequence.make .path [a, .integer 1] .adaptive h = .ok (.ok s) h₁ ∧
      Sequence.make .path [a, .integer 1] .never h₁ = .ok (.ok t) h₂ ∧
      keysEqual h₂ s t = .ok true) ∧
    (keysEqual h a b = .ok true ∧ ∃ s h₁ t h₂,
      Sequence.make .path [a, .integer 1] .adaptive h = .ok (.ok s) h₁ ∧
      Sequence.make .path [b, .integer 1] .never h₁ = .ok (.ok t) h₂ ∧
      keysEqual h₂ s t ≠ .ok true) := by
  intro a b h
  have hfirst : (Operation.makeString .text "x").made (.new {}) = [a] := by decide +kernel
  have hsecond : (Operation.makeString .text "x").made
      ((Operation.makeString .text "x").after (.new {})) = [b] := by decide +kernel
  have hone : Session (fun _ _ => True) {} _
      ((Operation.makeString .text "x").made (.new {}) ++ []) :=
    .perform .start trivial (by simp [Operation.cells])
  have htwo : Session (fun _ _ => True) {} _ ((Operation.makeString .text "x").made
      ((Operation.makeString .text "x").after (.new {})) ++ _) :=
    .perform hone trivial (by simp [Operation.cells])
  have ha : a.Buildable := ⟨{}, _, _, hone, by rw [hfirst]; simp⟩
  have hb : b.Buildable := ⟨{}, _, _, htwo, by rw [hsecond]; simp⟩
  have hint : (Cell.integer 1).Buildable := ⟨{}, _, _, .primitive .start (.integer 1), by simp⟩
  have hparts : ∀ c : Cell, c.Buildable → c.kind = .text → ∀ e ∈ [c, .integer 1],
      e.Buildable ∧ (e.kind = .blank → e.payload = .empty) := by
    intro c hc hk e he
    rcases List.mem_pair.1 he with rfl | rfl
    · exact ⟨hc, fun hblank => by rw [hk] at hblank; cases hblank⟩
    · exact ⟨hint, fun hblank => by cases hblank⟩
  have haa : keysEqual h a a = .ok true := by decide +kernel
  have hab : keysEqual h a b = .ok true := by decide +kernel
  have hii : keysEqual h (.integer 1) (.integer 1) = .ok true := by decide +kernel
  have hva : Sequence.validate h .path [a, .integer 1] = .ok () := by decide +kernel
  have hvb : Sequence.validate h .path [b, .integer 1] = .ok () := by decide +kernel
  constructor
  · refine ⟨haa, ?_⟩
    obtain ⟨s, h₁, t, h₂, hs, ht, _, hiff⟩ := composite_keys {} _ .path _ _ (hparts a ha rfl)
      (hparts a ha rfl) hva hva .adaptive .never
    refine ⟨s, h₁, t, h₂, hs, ht, (hiff (.cons haa (.cons hii .nil))).2 ?_⟩
    exact .cons ⟨rfl, rfl, Or.inl rfl⟩ (.cons ⟨rfl, rfl, Or.inl rfl⟩ .nil)
  · refine ⟨hab, ?_⟩
    obtain ⟨s, h₁, t, h₂, hs, ht, _, hiff⟩ := composite_keys {} _ .path _ _ (hparts a ha rfl)
      (hparts b hb rfl) hva hvb .adaptive .never
    refine ⟨s, h₁, t, h₂, hs, ht, ?_⟩
    rw [Ne, hiff (.cons hab (.cons hii .nil))]
    rintro (_ | ⟨halike, _⟩)
    rcases halike.data with hdata | ⟨hrefs, _⟩
    · cases hdata
    · cases hrefs

/-- Equal parts that do not make equal keys: two texts in buffers of their own, a nested sequence
in two forms, and one that was made twice in the same form. -/
theorem equal_parts_distinct_keys :
    let text := fun i => Cell.bare .text (.series ⟨i, 0⟩ 0)
    let short := Cell.bare .tuple (.sequence (.bytes ⟨[1, 2], by decide⟩))
    let long := fun i => Cell.bare .tuple (.sequence (.array ⟨i, 0⟩))
    let path := fun i => Cell.bare .path (.sequence (.pair ⟨i, 0⟩))
    let h := (Heap.new {}).run
      [.makeString .text "x", .makeString .text "x",
       .makeSequence .tuple [.integer 1, .integer 2] .never,
       .makeSequence .tuple [.integer 1, .integer 2] .never,
       .makeSequence .path [text 0, .integer 1] .adaptive,
       .makeSequence .path [text 1, .integer 1] .adaptive,
       .makeSequence .path [short, .integer 1] .adaptive,
       .makeSequence .path [long 2, .integer 1] .adaptive,
       .makeSequence .path [long 3, .integer 1] .adaptive]
    (keysEqual h (text 0) (text 1) = .ok true ∧ keysEqual h (path 4) (path 5) = .ok false) ∧
    (keysEqual h short (long 2) = .ok true ∧ keysEqual h (path 6) (path 7) = .ok false) ∧
    (keysEqual h (long 2) (long 3) = .ok true ∧ keysEqual h (path 7) (path 8) = .ok false) := by
  decide +kernel

end Composite

end Map

end CellHeap
