import CellHeap.Proofs.Render.Locality
import CellHeap.Proofs.Typing.Readers
import Mathlib.Logic.Relation

/-!
# Rendering ends by itself

A rendering enters a buffer of a list, context or map once at most, and between
two of them only sequences and pairs stand inside each other, of falling rank. So
the depth that is allowed for is never used up, and a rendering of a typed cell
ends early only with a fault that some cell inside it excuses.
-/

set_option autoImplicit false

namespace CellHeap

theorem Kind.one_le_rank (k : Kind) : 1 ≤ k.rank := by
  cases k <;> decide

theorem Kind.rank_le_four (k : Kind) : k.rank ≤ 4 := by
  cases k <;> decide

namespace Render

open Rendering

variable {R : Roles} {h : Heap} {c d : Cell} {α : Type}

def Excused (h : Heap) (c : Cell) (r : Rendering) : Prop :=
  ∀ halt, r.halt = some halt →
    ∃ d e, halt = .fault e ∧ Relation.ReflTransGen h.Within c d ∧ h.Excuses d e

theorem excused_write (s : String) : Excused h c (write s) := by
  intro halt hh
  cases hh

theorem Excused.andThen {r s : Rendering} (hr : Excused h c r) (hs : Excused h c s) :
    Excused h c (r >> s) := by
  cases hh : r.halt with
  | some e =>
    rw [andThen_of_some s hh]
    exact hr
  | none =>
    rw [andThen_of_none s hh]
    exact hs

theorem excused_each {f : α → Rendering} (as : List α) (hf : ∀ a ∈ as, Excused h c (f a)) :
    Excused h c (each f as) := by
  induction as with
  | nil => exact excused_write ""
  | cons a as ih =>
    exact (hf a (by simp)).andThen (ih fun b hb => hf b (by simp [hb]))

theorem excused_separated {sep : String} {f : α → Rendering} (as : List α)
    (hf : ∀ a ∈ as, Excused h c (f a)) : Excused h c (separated sep f as) := by
  fun_induction separated sep f as with
  | case1 => exact excused_write ""
  | case2 a => exact hf a (by simp)
  | case3 a as _ ih =>
    have has := ih fun b hb => hf b (by simp [hb])
    exact (hf a (by simp)).andThen ((excused_write sep).andThen has)

theorem excused_ofRead {x : Except Fault α} {f : α → Rendering} (hx : h.Excusable c x)
    (hf : ∀ a, x = .ok a → Excused h c (f a)) : Excused h c (ofRead x f) := by
  cases x with
  | ok a => exact hf a rfl
  | error e =>
    intro halt hh
    cases hh
    exact ⟨c, e, rfl, .refl, hx e rfl⟩

theorem Excused.outer {r : Rendering} (hd : Excused h d r) (hw : h.Within c d) :
    Excused h c r := by
  intro halt hh
  obtain ⟨x, e, he, hx, hex⟩ := hd halt hh
  exact ⟨x, e, he, .head hw hx, hex⟩

def load (h : Heap) (stack : List BufferId) (c : Cell) : Nat :=
  4 * (h.unseen stack).length + c.kind.rank

/-- A buffer that is entered counts for more than the ranks of cells. -/
theorem load_entered {id : BufferId} {b : Buffer} {stack : List BufferId}
    (hr : h.read id = .ok b) (hs : id ∉ stack) (c d : Cell) :
    load h (id :: stack) d < load h stack c := by
  have hlt := Heap.unseen_cons_lt (Heap.mem_ids (Heap.buffer?_of_read hr)) hs
  have hc := c.kind.one_le_rank
  have hd := d.kind.rank_le_four
  unfold load
  omega

theorem load_of_rank {stack : List BufferId} (hk : d.kind.rank < c.kind.rank) :
    load h stack d < load h stack c := by
  unfold load
  omega

end Render

/-- What stands in a cell is of a lower rank, if all its buffers hold only such cells. -/
theorem Heap.Within.rank_lt {h : Heap} {c d : Cell} {n : Nat} (hw : h.Within c d) (hn : 1 < n)
    (hlow : ∀ id ∈ c.references, ∀ b, h.read id = .ok b → ∀ e ∈ b.stored, e.kind.rank < n) :
    d.kind.rank < n := by
  cases hw with
  | @stored id b e hid hb he => exact hlow id hid b hb e he
  | integer | blank | word => exact hn

theorem Sequence.rank_of_elementAt {R : Roles} {h : Heap} {c d : Cell} {i : Nat}
    (hc : h.Consistent R) (ht : c.Typed R) (hd : elementAt h c i = .ok d) :
    d.kind.rank < c.kind.rank := by
  obtain ⟨s, hs, _⟩ := bind_eq_ok_iff.1 hd
  have hp := storage_eq_ok hs
  have hw := within_of_elementAt hd
  unfold Cell.Typed at ht
  rw [hp] at ht
  cases s with
  | bytes | word => exact hw.rank_lt (Kind.one_lt_rank ht) (by simp [Cell.references, hp])
  | pair id | array id =>
    apply hw.rank_lt (Kind.one_lt_rank ht.1)
    intro j hj b hr e he
    have hid : j = id := by simpa [Cell.references, hp] using hj
    exact ((hc.fits id _ b ht.2 (hid ▸ hr)).admits e he).2

theorem Pair.rank_of_parts {R : Roles} {h : Heap} {c x y : Cell} (hc : h.Consistent R)
    (ht : c.Typed R) (hp : parts h c = .ok (x, y)) :
    x.kind.rank < c.kind.rank ∧ y.kind.rank < c.kind.rank := by
  obtain ⟨id, b, hpay, hr, hb⟩ := parts_eq_ok hp
  unfold Cell.Typed at ht
  rw [hpay] at ht
  have hfit := hc.fits id _ b ht.2 hr
  have hnum : ∀ d ∈ b.stored, d.kind.rank < c.kind.rank := by
    intro d hd
    have hd := (hfit.admits d hd).2
    rw [ht.1]
    cases hk : d.kind <;> simp_all [Kind.isNumber, Kind.rank]
  exact ⟨hnum x (by simp [hb]), hnum y (by simp [hb])⟩

namespace Render

open Rendering

section Level

variable {R : Roles} {h : Heap} {c d : Cell} {stack : List BufferId}
  {nested : List BufferId → Cell → Rendering}

def Lighter (R : Roles) (h : Heap) (nested : List BufferId → Cell → Rendering)
    (stack : List BufferId) (c : Cell) : Prop :=
  ∀ stack' d, d.Typed R → load h stack' d < load h stack c → Excused h d (nested stack' d)

theorem inside_excused {id : BufferId} {f : List BufferId → Rendering}
    (hf : id ∉ stack → Excused h c (f (id :: stack))) : Excused h c (inside stack id f) := by
  unfold inside
  by_cases hs : id ∈ stack
  · simp only [hs, if_true]
    exact excused_write _
  · simp only [hs, if_false]
    exact hf hs

/-- What stands in a buffer that is entered. -/
theorem entered_excused {id : BufferId} {b : Buffer} (hc : h.Consistent R)
    (hn : Lighter R h nested stack c) (hr : h.read id = .ok b) (hs : id ∉ stack)
    (hw : h.Within c d) : Excused h c (nested (id :: stack) d) :=
  (hn _ d (hw.typed hc) (load_entered hr hs c d)).outer hw

theorem series_excused {id : BufferId} {i : Nat} (hc : h.Consistent R)
    (hn : Lighter R h nested stack c) (hp : c.payload = .series id i) :
    Excused h c (series h nested stack c id) := by
  apply excused_ofRead (Series.rest_excusable hp)
  intro s hr
  obtain ⟨b, hb, _⟩ := Series.form_of_rest hp hr
  cases s with
  | text s => exact excused_write _
  | bytes bs => exact excused_write _
  | cells cs =>
    have hin : Excused h c (inside stack id (cells nested · cs)) := by
      apply inside_excused
      intro hstack
      apply excused_each
      rintro ⟨d, j⟩ hd
      have hmem : d ∈ cs := (List.mem_zipIdx' hd).2 ▸ List.getElem_mem _
      have hw := (Series.contains_of_rest hr hmem).within
      exact (excused_write _).andThen (entered_excused hc hn hb hstack hw)
    exact (excused_write _).andThen (hin.andThen (excused_write _))

theorem sequence_excused (hc : h.Consistent R) (ht : c.Typed R)
    (hn : Lighter R h nested stack c) (hk : c.kind.isSequence = true) :
    Excused h c (sequence h nested stack c) := by
  have hs := hc.shaped ht
  apply excused_ofRead (hs.length hk)
  intro n hl
  -- the length could be read, so every element up to it can
  obtain ⟨es, hes, hlen⟩ := hs.kept_of_length hk hl
  apply excused_separated
  intro i hi
  have hlt : i < es.length := by
    rw [hlen]
    exact List.mem_range.1 hi
  have he := Sequence.elementAt_eq hes (List.getElem?_eq_getElem hlt)
  unfold element
  rw [he]
  apply excused_ofRead (excusable_ok _)
  intro e hee
  cases hee
  split
  · exact excused_write _
  · have hw := Sequence.within_of_elementAt he
    have hlight := Sequence.rank_of_elementAt hc ht he
    exact (hn stack _ (hw.typed hc) (load_of_rank hlight)).outer hw

theorem pair_excused (hc : h.Consistent R) (ht : c.Typed R) (hn : Lighter R h nested stack c)
    (hk : c.kind = .pair) : Excused h c (pair h nested stack c) := by
  apply excused_ofRead ((hc.shaped ht).parts hk)
  rintro ⟨x, y⟩ hp
  have hwx : h.Within c x := (Pair.contains_of_parts hp (by simp)).within
  have hwy : h.Within c y := (Pair.contains_of_parts hp (by simp)).within
  obtain ⟨hrx, hry⟩ := Pair.rank_of_parts hc ht hp
  have hx := (hn stack x (hwx.typed hc) (load_of_rank hrx)).outer hwx
  have hy := (hn stack y (hwy.typed hc) (load_of_rank hry)).outer hwy
  exact hx.andThen ((excused_write _).andThen hy)

theorem context_excused {v : BufferId} (hc : h.Consistent R) (ht : c.Typed R)
    (hn : Lighter R h nested stack c) (hk : c.kind.isContext = true)
    (hp : c.payload = .context v) : Excused h c (context h nested stack c v) := by
  have hs := hc.shaped ht
  have hin : Excused h c (inside stack v (assignments h nested · c)) := by
    apply inside_excused
    intro hstack
    apply excused_ofRead (hs.keys hk)
    intro ks hks
    obtain ⟨b, hb⟩ := Context.read_of_keys hp hks
    apply excused_separated
    intro key hmem
    obtain ⟨d, hd⟩ := hs.read_of_mem hk hks hmem
    have hw := (Context.contains_of_read hd).within
    apply (excused_write _).andThen
    rw [hd]
    exact entered_excused hc hn hb hstack hw
  exact (excused_write _).andThen (hin.andThen (excused_write _))

theorem map_excused {id : BufferId} (hc : h.Consistent R) (ht : c.Typed R)
    (hn : Lighter R h nested stack c) (hk : c.kind = .map) (hp : c.payload = .map id) :
    Excused h c (map h nested stack c id) := by
  have hin : Excused h c (inside stack id (entries h nested · c)) := by
    apply inside_excused
    intro hstack
    apply excused_ofRead ((hc.shaped ht).pairs hk)
    intro ps hps
    obtain ⟨b, hb⟩ := Map.read_of_pairs hp hps
    apply excused_separated
    rintro ⟨k, v⟩ hmem
    have hboth : ∀ d ∈ [k, v], Excused h c (nested (id :: stack) d) := by
      intro d hd
      exact entered_excused hc hn hb hstack (Map.contains_of_pairs hps hmem hd).within
    exact (hboth k (by simp)).andThen ((excused_write _).andThen (hboth v (by simp)))
  exact (excused_write _).andThen (hin.andThen (excused_write _))

theorem rune_excused (hs : h.Shaped c) (hk : c.kind = .rune) : Excused h c (rune h c) := by
  apply (excused_write _).andThen
  apply excused_ofRead (hs.text (Or.inr hk))
  intro s _
  exact excused_write s

theorem body_excused (hc : h.Consistent R) (ht : c.Typed R) (hn : Lighter R h nested stack c) :
    Excused h c (body h nested stack c) := by
  have hs := hc.shaped ht
  have hty := ht
  unfold Cell.Typed at hty
  unfold body
  cases hp : c.payload with
  | empty | integer | decimal | word | parameter | handle => exact excused_write _
  | inline b =>
    rw [hp] at hty
    simp only [hty.1, if_true]
    exact rune_excused hs hty.1
  | series id i =>
    by_cases hk : c.kind = .rune
    · simp only [hk, if_true]
      exact rune_excused hs hk
    · simp only [hk, if_false]
      exact series_excused hc hn hp
  | sequence s =>
    have hk : c.kind.isSequence = true := by
      simp only [hp] at hty
      cases s with
      | bytes | word => exact hty
      | pair | array => exact hty.1
    exact sequence_excused hc ht hn hk
  | pairing id =>
    rw [hp] at hty
    exact pair_excused hc ht hn hty.1
  | context v =>
    rw [hp] at hty
    have hk : c.kind.isContext = true := by
      rcases hty.1 with hk | hk | hk <;> rw [hk] <;> rfl
    exact context_excused hc ht hn hk hp
  | frame v l =>
    rw [hp] at hty
    apply excused_ofRead (hs.label hty.1)
    intro s _
    exact excused_write _
  | map id =>
    rw [hp] at hty
    exact map_excused hc ht hn hty.1 hp

theorem level_excused (hc : h.Consistent R) (ht : c.Typed R) (hn : Lighter R h nested stack c) :
    Excused h c (level h nested stack c) := by
  unfold level
  split
  · exact (excused_write _).andThen ((body_excused hc ht hn).andThen (excused_write _))
  · exact excused_write _

end Level

variable {R : Roles} {h : Heap} {c : Cell}

/-- By induction on the depth: what is nested is lighter than the cell around it. -/
theorem upTo_excused (hc : h.Consistent R) (n : Nat) (stack : List BufferId) (c : Cell)
    (ht : c.Typed R) (hl : load h stack c ≤ n) : Excused h c (upTo h n stack c) := by
  induction n generalizing stack c with
  | zero =>
    have hr := c.kind.one_le_rank
    unfold load at hl
    omega
  | succ n ih =>
    apply level_excused hc ht
    intro stack' d hd hlt
    exact ih stack' d hd (by omega)

theorem load_le_depthBound (h : Heap) (stack : List BufferId) (c : Cell) :
    load h stack c ≤ depthBound h := by
  have hids := h.length_ids_le
  have hfilter : (h.unseen stack).length ≤ h.ids.length := List.length_filter_le _ _
  have hr := c.kind.rank_le_four
  simp only [load, depthBound, Nat.add_mul, Nat.mul_add]
  omega

theorem mold_eq_error {halt : Halt} (hc : h.Consistent R) (ht : c.Typed R)
    (hm : mold h c = .error halt) :
    ∃ d e, halt = .fault e ∧ Relation.ReflTransGen h.Within c d ∧ h.Excuses d e := by
  apply upTo_excused hc _ [] c ht (load_le_depthBound h [] c)
  unfold mold toExcept at hm
  split at hm <;> cases hm
  assumption

end Render

end CellHeap
