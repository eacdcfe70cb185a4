import CellHeap.Proofs.Heap.View
import CellHeap.Render.Basic

/-!
# Rendering looks only at what a cell can reach

`Draws` lists the cells that rendering one cell writes inside it, `Enters` the calls
it makes for them under a stack, and `Spells` the symbols that it writes itself. A
level of rendering depends on nothing else but the buffers of the cell and the guard
of its own buffer. So two heaps that
show the same on a set of buffers closed under the references of their contents
render alike every cell whose buffers lie in the set. Cells that hold no value are
written without looking at their payload, so they may name anything.
-/

set_option autoImplicit false

namespace CellHeap

structure Rendering.Respected (Q : Rendering → Rendering → Prop) : Prop where
  write : ∀ s, Q (write s) (write s)
  fault : ∀ e, Q ⟨"", some (.fault e)⟩ ⟨"", some (.fault e)⟩
  andThen : ∀ {a a' b b' : Rendering}, Q a a' → Q b b' → Q (a >> b) (a' >> b')

namespace Rendering.Respected

variable {α : Type} {Q : Rendering → Rendering → Prop} {f f' : α → Rendering}

theorem each (hq : Respected Q) (as : List α) (hf : ∀ a ∈ as, Q (f a) (f' a)) :
    Q (Rendering.each f as) (Rendering.each f' as) := by
  induction as with
  | nil => exact hq.write ""
  | cons a as ih => exact hq.andThen (hf a (by simp)) (ih fun b hb => hf b (by simp [hb]))

theorem separated (hq : Respected Q) (sep : String) (as : List α)
    (hf : ∀ a ∈ as, Q (f a) (f' a)) :
    Q (Rendering.separated sep f as) (Rendering.separated sep f' as) := by
  induction as with
  | nil => exact hq.write ""
  | cons a as ih =>
    have ha := hf a (by simp)
    cases as with
    | nil => exact ha
    | cons b bs =>
      exact hq.andThen ha (hq.andThen (hq.write sep) (ih fun x hx => hf x (by simp [hx])))

theorem ofRead (hq : Respected Q) {x x' : Except Fault α} (hx : x' = x)
    (hf : ∀ a, x = .ok a → Q (f a) (f' a)) :
    Q (Rendering.ofRead x f) (Rendering.ofRead x' f') := by
  subst hx
  cases x' with
  | ok a => exact hf a rfl
  | error e => exact hq.fault e

end Rendering.Respected

def Cell.guarded? (c : Cell) : Option BufferId :=
  match c.payload with
  | .series id _ => if c.kind = .rune then none else some id
  | .context id | .map id => some id
  | _ => none

theorem Cell.home?_of_guarded {c : Cell} {id : BufferId} (hc : c.guarded? = some id) :
    c.home? = some id := by
  unfold guarded? at hc
  unfold home? references
  cases hp : c.payload with
  | series j i =>
    simp only [hp] at hc ⊢
    by_cases hk : c.kind = .rune
    · simp [hk] at hc
    · simpa [hk] using hc
  | context j | map j => simpa [hp] using hc
  | _ => simp [hp] at hc

namespace Render

open Rendering

theorem respected_eq : Respected Eq where
  write := fun _ => rfl
  fault := fun _ => rfl
  andThen := fun ha hb => by rw [ha, hb]

/-- A bare cell is written as its payload. -/
theorem level_of_body {h : Heap} {nested : List BufferId → Cell → Rendering}
    {stack : List BufferId} {c : Cell} {t : String} (hb : c.isBare = true) (hr : c.isReadable = true)
    (hw : body h nested stack c = write t) : level h nested stack c = write t := by
  simp only [Cell.isBare, Bool.and_eq_true, beq_iff_eq, Option.isNone_iff_eq_none] at hb
  simp [level, hr, hw, hb.1, hb.2, quotes, tilde, sigil, Lift.base]

inductive Enters (h : Heap) (stack : List BufferId) (c : Cell) : List BufferId → Cell → Prop
  | item {id : BufferId} {i : Nat} {cs : List Cell} {d : Cell} (hp : c.payload = .series id i)
      (hid : id ∉ stack) (hr : Series.rest h c = .ok (.cells cs)) (hd : d ∈ cs) :
      Enters h stack c (id :: stack) d
  | element {i : Nat} {d : Cell} (hd : Sequence.elementAt h c i = .ok d) : Enters h stack c stack d
  | part {x y d : Cell} (hp : Pair.parts h c = .ok (x, y)) (hd : d ∈ [x, y]) :
      Enters h stack c stack d
  | slot {v : BufferId} {key : Symbol} {d : Cell} (hp : c.payload = .context v)
      (hv : v ∉ stack) (hd : Context.read h c key = .ok d) : Enters h stack c (v :: stack) d
  | entry {id : BufferId} {ps : List (Cell × Cell)} {k v d : Cell} (hp : c.payload = .map id)
      (hid : id ∉ stack) (hps : Map.pairs h c = .ok ps) (hkv : (k, v) ∈ ps) (hd : d ∈ [k, v]) :
      Enters h stack c (id :: stack) d

inductive Draws (h : Heap) (c : Cell) : Cell → Prop
  | item {id : BufferId} {i : Nat} {cs : List Cell} {d : Cell} (hc : c.isReadable = true)
      (hp : c.payload = .series id i) (hk : c.kind ≠ .rune)
      (hr : Series.rest h c = .ok (.cells cs)) (hd : d ∈ cs) : Draws h c d
  | element {st : Storage} {i : Nat} {d : Cell} (hc : c.isReadable = true)
      (hp : c.payload = .sequence st) (hd : Sequence.elementAt h c i = .ok d)
      (hb : d.isBlank = false) : Draws h c d
  | part {id : BufferId} {x y d : Cell} (hc : c.isReadable = true) (hp : c.payload = .pairing id)
      (hxy : Pair.parts h c = .ok (x, y)) (hd : d ∈ [x, y]) : Draws h c d
  | slot {v : BufferId} {key : Symbol} {d : Cell} (hc : c.isReadable = true)
      (hp : c.payload = .context v) (hd : Context.read h c key = .ok d) : Draws h c d
  | entry {id : BufferId} {ps : List (Cell × Cell)} {k v d : Cell} (hc : c.isReadable = true)
      (hp : c.payload = .map id) (hps : Map.pairs h c = .ok ps) (hkv : (k, v) ∈ ps)
      (hd : d ∈ [k, v]) : Draws h c d

theorem Draws.enters {h : Heap} {stack : List BufferId} {c d : Cell} (hd : Draws h c d)
    (hfree : ∀ id, c.guarded? = some id → id ∉ stack) :
    Enters h stack c (c.guarded?.toList ++ stack) d := by
  unfold Cell.guarded? at hfree ⊢
  cases hd with
  | item _ hp hk hr hd =>
    simp only [hp, hk, if_false] at hfree ⊢
    exact .item hp (hfree _ rfl) hr hd
  | element _ hp hd _ =>
    simp only [hp]
    exact .element hd
  | part _ hp hxy hd =>
    simp only [hp]
    exact .part hxy hd
  | slot _ hp hd =>
    simp only [hp] at hfree ⊢
    exact .slot hp (hfree _ rfl) hd
  | entry _ hp hps hkv hd =>
    simp only [hp] at hfree ⊢
    exact .entry hp (hfree _ rfl) hps hkv hd

inductive Spells (h : Heap) (c : Cell) : Symbol → Prop
  | word {s : Symbol} (hp : c.payload = .word s) : Spells h c s
  | key {keys : List Symbol} {s : Symbol} (hk : Context.keys h c = .ok keys) (hs : s ∈ keys) :
      Spells h c s
  | label {s : Symbol} (hl : Frame.label h c = .ok (some s)) : Spells h c s

structure Alike (Q : Rendering → Rendering → Prop) (h h' : Heap)
    (nested nested' : List BufferId → Cell → Rendering) (stack stack' : List BufferId) (c : Cell) :
    Prop where
  view : h.SameView h' c
  spelling : ∀ s, Spells h c s → h'.spelling s = h.spelling s
  guard : ∀ id, c.guarded? = some id → (id ∈ stack' ↔ id ∈ stack)
  nested : ∀ d, Draws h c d → (∀ id, c.guarded? = some id → id ∉ stack) →
    Q (nested (c.guarded?.toList ++ stack) d) (nested' (c.guarded?.toList ++ stack') d)

section Level

variable {Q : Rendering → Rendering → Prop} {h h' : Heap} {c : Cell}
  {nested nested' : List BufferId → Cell → Rendering} {stack stack' : List BufferId}

theorem inside_alike {id : BufferId} {f f' : List BufferId → Rendering} (hq : Respected Q)
    (hs : id ∈ stack' ↔ id ∈ stack) (hf : id ∉ stack → Q (f (id :: stack)) (f' (id :: stack'))) :
    Q (inside stack id f) (inside stack' id f') := by
  unfold inside
  by_cases hid : id ∈ stack
  · rw [if_pos hid, if_pos (hs.2 hid)]
    exact hq.write "..."
  · rw [if_neg hid, if_neg (mt hs.1 hid)]
    exact hf hid

variable (hq : Respected Q) (hc : c.isReadable = true)
  (ha : Alike Q h h' nested nested' stack stack' c)

include ha

theorem nested_of_guarded {id : BufferId} {d : Cell} (hg : c.guarded? = some id)
    (hid : id ∉ stack) (hd : Draws h c d) :
    Q (nested (id :: stack) d) (nested' (id :: stack') d) := by
  have hfree : ∀ j, c.guarded? = some j → j ∉ stack := by
    intro j hj
    rw [hg] at hj
    cases hj
    exact hid
  simpa [hg] using ha.nested d hd hfree

theorem nested_of_unguarded {d : Cell} (hg : c.guarded? = none) (hd : Draws h c d) :
    Q (nested stack d) (nested' stack' d) := by
  simpa [hg] using ha.nested d hd (by simp [hg])

include hq hc

theorem series_alike {id : BufferId} {i : Nat} (hp : c.payload = .series id i)
    (hk : c.kind ≠ .rune) : Q (series h nested stack c id) (series h' nested' stack' c id) := by
  have hg : c.guarded? = some id := by simp [Cell.guarded?, hp, hk]
  apply hq.ofRead (Series.rest_congr ha.view)
  intro a hr
  cases a with
  | text s => exact hq.write _
  | bytes bs => exact hq.write _
  | cells cs =>
    refine hq.andThen (hq.write _) (hq.andThen ?_ (hq.write _))
    apply inside_alike hq (ha.guard id hg)
    intro hid
    apply hq.each
    rintro ⟨d, j⟩ hd
    have hmem : d ∈ cs := (List.mem_zipIdx' hd).2 ▸ List.getElem_mem _
    exact hq.andThen (hq.write _) (nested_of_guarded ha hg hid (.item hc hp hk hr hmem))

theorem sequence_alike {st : Storage} (hp : c.payload = .sequence st) :
    Q (sequence h nested stack c) (sequence h' nested' stack' c) := by
  apply hq.ofRead (Sequence.length_congr ha.view)
  intro n _
  apply hq.separated
  intro i _
  apply hq.ofRead (Sequence.elementAt_congr ha.view i)
  intro e he
  cases hb : e.isBlank with
  | true => exact hq.write ""
  | false => exact nested_of_unguarded ha (by simp [Cell.guarded?, hp]) (.element hc hp he hb)

theorem pair_alike {id : BufferId} (hp : c.payload = .pairing id) :
    Q (pair h nested stack c) (pair h' nested' stack' c) := by
  have hg : c.guarded? = none := by simp [Cell.guarded?, hp]
  apply hq.ofRead (Pair.parts_congr ha.view)
  rintro ⟨x, y⟩ hxy
  have hx := nested_of_unguarded ha hg (.part hc hp hxy (d := x) (by simp))
  have hy := nested_of_unguarded ha hg (.part hc hp hxy (d := y) (by simp))
  exact hq.andThen hx (hq.andThen (hq.write "x") hy)

theorem context_alike {v : BufferId} (hp : c.payload = .context v) :
    Q (context h nested stack c v) (context h' nested' stack' c v) := by
  have hg : c.guarded? = some v := by simp [Cell.guarded?, hp]
  refine hq.andThen (hq.write _) (hq.andThen ?_ (hq.write _))
  apply inside_alike hq (ha.guard v hg)
  intro hv
  apply hq.ofRead (Context.keys_congr ha.view)
  intro keys hkeys
  apply hq.separated
  intro key hkey
  unfold assignment
  rw [ha.spelling key (.key hkeys hkey)]
  apply hq.andThen (hq.write _)
  apply hq.ofRead (Context.read_congr ha.view key)
  intro d hd
  exact nested_of_guarded ha hg hv (.slot hc hp hd)

theorem map_alike {id : BufferId} (hp : c.payload = .map id) :
    Q (map h nested stack c id) (map h' nested' stack' c id) := by
  have hg : c.guarded? = some id := by simp [Cell.guarded?, hp]
  refine hq.andThen (hq.write _) (hq.andThen ?_ (hq.write _))
  apply inside_alike hq (ha.guard id hg)
  intro hid
  apply hq.ofRead (Map.pairs_congr ha.view)
  intro ps hps
  apply hq.separated
  rintro ⟨k, v⟩ hkv
  have hk := nested_of_guarded ha hg hid (.entry hc hp hps hkv (d := k) (by simp))
  have hv := nested_of_guarded ha hg hid (.entry hc hp hps hkv (d := v) (by simp))
  exact hq.andThen hk (hq.andThen (hq.write " ") hv)

omit hc

theorem frame_alike : Q (frame h c) (frame h' c) := by
  apply hq.ofRead (Frame.label_congr ha.view)
  intro s hs
  cases s with
  | none => exact hq.write _
  | some s =>
    simp only [Option.map_some, ha.spelling s (.label hs)]
    exact hq.write _

include hc

theorem body_alike : Q (body h nested stack c) (body h' nested' stack' c) := by
  have hrune : Q (rune h c) (rune h' c) :=
    hq.andThen (hq.write "#") (hq.ofRead (Strings.text_congr ha.view) fun s _ => hq.write s)
  unfold body
  cases hp : c.payload with
  | word s =>
    simp only [ha.spelling s (.word hp)]
    exact hq.write _
  | inline b =>
    by_cases hk : c.kind = .rune
    · simp only [hk, if_true]
      exact hrune
    · simp only [hk, if_false]
      exact hq.write _
  | series id i =>
    by_cases hk : c.kind = .rune
    · simp only [hk, if_true]
      exact hrune
    · simp only [hk, if_false]
      exact series_alike hq hc ha hp hk
  | sequence s => exact sequence_alike hq hc ha hp
  | pairing id => exact pair_alike hq hc ha hp
  | context v => exact context_alike hq hc ha hp
  | frame v l => exact frame_alike hq ha
  | map id => exact map_alike hq hc ha hp
  | _ => exact hq.write _

omit hc ha

theorem level_alike (ha : c.isReadable = true → Alike Q h h' nested nested' stack stack' c) :
    Q (level h nested stack c) (level h' nested' stack' c) := by
  unfold level
  by_cases hc : c.isReadable = true
  · rw [if_pos hc, if_pos hc]
    exact hq.andThen (hq.write _) (hq.andThen (body_alike hq hc (ha hc)) (hq.write _))
  · rw [if_neg hc, if_neg hc]
    exact hq.write _

/-- One level of rendering looks at the cells inside only through the calls of `Enters`. -/
theorem level_related
    (hn : ∀ stack' d, Enters h stack c stack' d → Q (nested stack' d) (nested' stack' d)) :
    Q (level h nested stack c) (level h nested' stack c) := by
  apply level_alike hq
  intro _
  constructor
  · exact h.sameView_refl c
  · exact fun _ _ => rfl
  · exact fun _ _ => Iff.rfl
  · exact fun d hd hfree => hn _ d (hd.enters hfree)

end Level

theorem Enters.within {h : Heap} {stack stack' : List BufferId} {c d : Cell}
    (he : Enters h stack c stack' d) : h.Within c d := by
  cases he with
  | item _ _ hr hd => exact (Series.contains_of_rest hr hd).within
  | element hd => exact Sequence.within_of_elementAt hd
  | part hp hd => exact (Pair.contains_of_parts hp hd).within
  | slot _ _ hd => exact (Context.contains_of_read hd).within
  | entry _ _ hps hkv hd => exact (Map.contains_of_pairs hps hkv hd).within

end Render

def Cell.symbols (c : Cell) : List Symbol :=
  match c.payload with
  | .word s | .sequence (.word s _) => [s]
  | .frame _ (.label (some s)) => [s]
  | _ => []

theorem Cell.mem_symbols_of_word {c : Cell} {s : Symbol} (hs : c.symbol? = some s) :
    s ∈ c.symbols := by
  unfold symbol? at hs
  unfold symbols
  cases hp : c.payload with
  | word t => simp_all
  | _ => simp [hp] at hs

def Buffer.symbols (b : Buffer) : List Symbol := b.label.toList ++ b.stored.flatMap Cell.symbols

theorem Buffer.mem_symbols_of_stored {b : Buffer} {c : Cell} {s : Symbol} (hc : c ∈ b.stored)
    (hs : s ∈ c.symbols) : s ∈ b.symbols :=
  List.mem_append_right _ (List.mem_flatMap.2 ⟨c, hc, hs⟩)

def Cell.Covered (M : BufferId → Prop) (N : Symbol → Prop) (c : Cell) : Prop :=
  c.isReadable = true → (∀ id ∈ c.references, M id) ∧ ∀ s ∈ c.symbols, N s

structure Heap.Agree (M : BufferId → Prop) (N : Symbol → Prop) (h h' : Heap) : Prop where
  sight : ∀ id, M id → h'.sight id = h.sight id
  closed : ∀ id b, M id → h.read id = .ok b → ∀ j ∈ b.references, M j
  spelling : ∀ s, N s → h'.spelling s = h.spelling s
  symbols : ∀ id b, M id → h.read id = .ok b → ∀ s ∈ b.symbols, N s

namespace Heap.Agree

open Render

variable {M : BufferId → Prop} {N : Symbol → Prop} {h h' : Heap} {c d : Cell}

theorem sameView (ha : h.Agree M N h') (hc : ∀ id ∈ c.references, M id) : h.SameView h' c := by
  constructor
  · intro id hid
    exact ha.sight id (hc id hid)
  · intro id hid b k hr hk
    apply ha.sight
    apply ha.closed id b (hc id hid) hr
    exact Buffer.mem_references.2 (Or.inl hk)

theorem spells (ha : h.Agree M N h') (hc : ∀ id ∈ c.references, M id) (hn : ∀ s ∈ c.symbols, N s)
    {s : Symbol} (hs : Spells h c s) : N s := by
  cases hs with
  | word hp => exact hn s (by simp [Cell.symbols, hp])
  | key hkeys hs =>
    obtain ⟨v, hv, hkeys⟩ := bind_eq_ok_iff.1 hkeys
    obtain ⟨cs, hcs, hkeys⟩ := bind_eq_ok_iff.1 hkeys
    obtain ⟨k, hk, hcs⟩ := bind_eq_ok_iff.1 hcs
    obtain ⟨names, hnames, hcs⟩ := bind_eq_ok_iff.1 hcs
    obtain ⟨b, hb, hk⟩ := Context.keylist_eq_ok hk
    cases hkeys
    obtain ⟨d, hd, hds⟩ := List.mem_filterMap.1 hs
    have hmv : M v := hc v (Context.mem_references_of_varlist hv)
    have hmk : M k := ha.closed v b hmv hb k (Buffer.mem_references.2 (Or.inl hk))
    apply ha.symbols k names hmk hnames
    exact Buffer.mem_symbols_of_stored (Buffer.cells_eq_ok hcs ▸ hd) (Cell.mem_symbols_of_word hds)
  | label hl =>
    obtain ⟨l, hlens, hl⟩ := bind_eq_ok_iff.1 hl
    obtain ⟨v, hp⟩ := Frame.lens_eq_ok hlens
    cases l with
    | label t =>
      cases hl
      exact hn s (by simp [Cell.symbols, hp])
    | phase p =>
      obtain ⟨b, hb, hl⟩ := bind_eq_ok_iff.1 hl
      have hlabel : b.label = some s := Except.ok.inj hl
      apply ha.symbols p b (hc p (by simp [Cell.references, hp])) hb
      simp [Buffer.symbols, hlabel]

theorem covered {stack stack' : List BufferId} (ha : h.Agree M N h')
    (hc : ∀ id ∈ c.references, M id) (hn : ∀ s ∈ c.symbols, N s)
    (he : Enters h stack c stack' d) : d.Covered M N := by
  have hstored : ∀ e, h.Contains c e → e.Covered M N := by
    rintro e ⟨id, hid, b, hb, hmem⟩ hreadable
    constructor
    · intro j hj
      apply ha.closed id b (hc id hid) hb
      exact Buffer.mem_references.2 (Or.inr ⟨e, hmem, hreadable, hj⟩)
    · intro s hs
      exact ha.symbols id b (hc id hid) hb s (Buffer.mem_symbols_of_stored hmem hs)
  cases he with
  | item _ _ hr hd => exact hstored d (Series.contains_of_rest hr hd)
  | part hp hd => exact hstored d (Pair.contains_of_parts hp hd)
  | slot _ _ hd => exact hstored d (Context.contains_of_read hd)
  | entry _ _ hps hkv hd => exact hstored d (Map.contains_of_pairs hps hkv hd)
  | element hd =>
    rcases Sequence.source_of_elementAt hd with
      ⟨x, rfl⟩ | rfl | ⟨s, side, b, hp, rfl⟩ | ⟨e, b, he, rfl⟩
    · exact fun _ => ⟨nofun, nofun⟩
    · exact fun _ => ⟨nofun, nofun⟩
    · refine fun _ => ⟨nofun, fun t ht => hn t ?_⟩
      obtain rfl : t = s := List.mem_singleton.1 ht
      simp [Cell.symbols, hp]
    · exact hstored e he

theorem upTo (ha : h.Agree M N h') (n : Nat) (stack : List BufferId) (hc : c.Covered M N) :
    Render.upTo h' n stack c = Render.upTo h n stack c := by
  induction n generalizing stack c with
  | zero => rfl
  | succ n ih =>
    apply Eq.symm
    apply level_alike respected_eq
    intro hreadable
    obtain ⟨hm, hn⟩ := hc hreadable
    constructor
    · exact ha.sameView hm
    · exact fun s hs => ha.spelling s (ha.spells hm hn hs)
    · exact fun _ _ => Iff.rfl
    · exact fun d hd hfree => (ih _ (ha.covered hm hn (hd.enters hfree))).symm

end Heap.Agree

end CellHeap
