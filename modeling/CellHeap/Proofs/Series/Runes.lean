import CellHeap.Proofs.Map.Keys
import CellHeap.Proofs.Refusal.Construction
import CellHeap.Proofs.Render.Locality

/-!
# Runes

A rune carries its text in the cell, as UTF-8 bytes, or names a frozen buffer that
holds it. Its readers take the text whole from either place. No edit reaches bytes
in a cell, and none changes a frozen buffer, so a rune reads the same until its
buffer decays or is swept.
-/

set_option autoImplicit false

namespace CellHeap.Strings

variable {h g : Heap} {c d : Cell} {s t : String}

structure IsRune (h : Heap) (c : Cell) (s : String) : Prop where
  kind : c.kind = .rune
  bare : c.isBare = true
  readable : c.isReadable = true
  content : runeText h c = .ok s
  owned : ∀ id ∈ c.references, ∃ b, h.read id = .ok b ∧ b.frozen = true ∧ b.managed = true

theorem runeText_congr (hread : ∀ id ∈ c.references, g.read id = h.read id) :
    runeText g c = runeText h c := by
  unfold runeText
  cases hp : c.payload with
  | series id i => simp only [hread id (by simp [Cell.references, hp])]
  | _ => rfl

theorem run_isRune (ops : List Operation) (hs : h.Sound) (hc : IsRune h c s)
    (hops : ∀ id ∈ c.references, ∀ op ∈ ops, op.Spares id) : IsRune (h.run ops) c s := by
  have hread : ∀ id ∈ c.references, (h.run ops).read id = h.read id := by
    intro id hid
    obtain ⟨b, hb, hz, hm⟩ := hc.owned id hid
    rw [hb, Heap.run_read ops hs hb hz hm (hops id hid)]
  refine ⟨hc.kind, hc.bare, hc.readable, ?_, fun id hid => ?_⟩
  · rw [runeText_congr hread, hc.content]
  · rw [hread id hid]
    exact hc.owned id hid

theorem rune?_of_le (hs : s.utf8ByteSize ≤ inlineCapacity) :
    ∃ b, InlineBytes.ofText? s = some b ∧ Cell.rune? s = some (.bare .rune (.inline b)) := by
  rw [← Text.length_utf8] at hs
  refine ⟨⟨Text.utf8 s, hs⟩, dif_pos hs, ?_⟩
  rw [Cell.rune?, InlineBytes.ofText?, InlineBytes.ofBytes?, dif_pos hs, Option.map_some]

theorem rune?_of_lt (hs : inlineCapacity < s.utf8ByteSize) : Cell.rune? s = none := by
  rw [← Text.length_utf8] at hs
  rw [Cell.rune?, InlineBytes.ofText?, InlineBytes.ofBytes?, dif_neg (Nat.not_le.2 hs),
    Option.map_none]

/-- A short rune needs no buffer. -/
theorem makeRune_of_le (h : Heap) (hs : s.utf8ByteSize ≤ inlineCapacity) :
    ∃ c, makeRune s h = .ok c h ∧ c.references = [] ∧ IsRune h c s := by
  obtain ⟨b, hb, hc⟩ := rune?_of_le hs
  refine ⟨.bare .rune (.inline b), ?_, rfl, rfl, rfl, rfl, ?_, fun id hid => by cases hid⟩
  · unfold makeRune
    rw [hc]
    rfl
  · simp [runeText, Cell.bare, InlineBytes.text?_of_ofText? hb]

/-- A long rune takes one frozen buffer of its own. -/
theorem makeRune_of_lt (hh : h.Sound) (hs : inlineCapacity < s.utf8ByteSize) :
    ∃ c g id b, makeRune s h = .ok c g ∧ c.references = [id] ∧ h.Extended g id b ∧
      b.managed = true ∧ b.frozen = true ∧ b.liveness = .managed ∧ IsRune g c s := by
  have hx : Heap.allocateFrozen (.text s) h = .ok _ _ := rfl
  have hread := Heap.read_of_placed hh hx (by simp [Buffer.toManaged])
  refine ⟨.bare .rune (.series _ 0), _, _, _, ?_, rfl, Heap.extended_place hh hx, rfl, rfl, rfl,
    rfl, rfl, rfl, ?_, ?_⟩
  · unfold makeRune
    rw [rune?_of_lt hs]
    rfl
  · simp only [runeText, Cell.bare]
    rw [hread]
    rfl
  · intro id hid
    rw [List.mem_singleton.1 hid]
    exact ⟨_, hread, rfl, rfl⟩

theorem IsRune.text_eq (hc : IsRune h c s) : text h c = .ok s := (if_pos hc.kind).trans hc.content

theorem IsRune.char? (hc : IsRune h c s) :
    (∃ o, char? h c = .ok o) ∧
      ∀ ch, Strings.char? h c = .ok (some ch) ↔ s = String.singleton ch := by
  have hlist : ∀ ch, s = String.singleton ch ↔ s.toList = [ch] := by
    intro ch
    rw [String.ext_iff, String.toList_singleton]
  unfold Strings.char?
  rw [hc.text_eq, ok_bind]
  simp only [hlist]
  cases hl : s.toList with
  | nil => simp
  | cons x xs =>
    cases xs with
    | nil => simp
    | cons y ys => simp

theorem IsRune.mold (hc : IsRune h c s) : Render.mold h c = .ok ("#" ++ s) := by
  have hbody : ∀ nested stack, Render.body h nested stack c = Rendering.write ("#" ++ s) := by
    intro nested stack
    have hrune : Render.rune h c = Rendering.write ("#" ++ s) := by
      simp [Render.rune, hc.text_eq, Rendering.ofRead]
    have htext := hc.content
    unfold runeText at htext
    unfold Render.body
    cases hp : c.payload with
    | inline b | series id i => simp [hc.kind, hrune]
    | _ => simp [hp] at htext
  obtain ⟨n, hn⟩ : ∃ n, Render.depthBound h = n + 1 :=
    Nat.exists_eq_add_one.2 (Nat.mul_pos (by omega) (by omega))
  have hlevel : Render.upTo h (n + 1) [] c = Rendering.write ("#" ++ s) :=
    Render.level_of_body hc.bare hc.readable (hbody _ _)
  unfold Render.mold Render.render
  rw [hn, hlevel]
  rfl

/-- Runes are compared by their texts, wherever these are kept. -/
theorem IsRune.keysEqual (hc : IsRune h c s) (hd : IsRune h d t) :
    Map.keysEqual h c d = .ok (decide (s = t)) := by
  have hsame : c.kind = d.kind ∧ c.lift = d.lift ∧ c.sigil = d.sigil := by
    have hbc := hc.bare
    have hbd := hd.bare
    simp only [Cell.isBare, Bool.and_eq_true, beq_iff_eq, Option.isNone_iff_eq_none] at hbc hbd
    simp [hc.kind, hd.kind, hbc, hbd]
  simp [Map.keysEqual, hsame, hd.kind, hc.text_eq, hd.text_eq, BEq.beq]

structure Allotted (h g : Heap) (c : Cell) (s : String) : Prop where
  short : s.utf8ByteSize ≤ 15 → g = h ∧ c.references = []
  long : 15 < s.utf8ByteSize → ∃ id b, c.references = [id] ∧ h.Extended g id b ∧
    b.managed = true ∧ b.frozen = true ∧ b.liveness = .managed

theorem makeRune_apply (hh : h.Sound) (s : String) : ∃ c g, makeRune s h = .ok c g ∧ g.Sound ∧
    IsRune g c s ∧ Allotted h g c s := by
  by_cases hs : s.utf8ByteSize ≤ 15
  · obtain ⟨c, hx, href, hc⟩ := makeRune_of_le h hs
    exact ⟨c, h, hx, hh, hc, fun _ => ⟨rfl, href⟩, fun hlt => absurd hs (Nat.not_le.2 hlt)⟩
  · obtain ⟨c, g, id, b, hx, href, he, hm, hz, hl, hc⟩ := makeRune_of_lt hh (Nat.lt_of_not_le hs)
    exact ⟨c, g, hx, he.sound, hc, fun hle => absurd hle hs,
      fun _ => ⟨id, b, href, he, hm, hz, hl⟩⟩

/-- Making a rune spares every buffer. -/
theorem IsRune.makeRune (hh : h.Sound) (hc : IsRune h c s) (hx : makeRune t h = .ok d g) :
    IsRune g c s := by
  have hrun : h.run [.makeRune t] = g := by
    simp only [Heap.run_cons, Heap.run_nil, ← after_perform, Operation.perform, HeapM.after_map]
    exact HeapM.after_of_ok hx
  rw [← hrun]
  apply run_isRune _ hh hc
  intro id _ op hop
  rw [List.mem_singleton.1 hop]
  trivial

structure Reads (h : Heap) (c : Cell) (s : String) : Prop where
  text : text h c = .ok s
  mold : Render.mold h c = .ok ("#" ++ s)
  answers : ∃ o, char? h c = .ok o
  char : ∀ ch, char? h c = .ok (some ch) ↔ s = String.singleton ch

theorem IsRune.reads (hc : IsRune h c s) : Reads h c s :=
  ⟨hc.text_eq, hc.mold, hc.char?.1, hc.char?.2⟩

/-- A rune made in any state reads as its text, and goes on doing so after every run that does not
drop its buffer, whatever edits are tried through it. It takes a frozen managed buffer of its own if
its text has more than fifteen bytes, and nothing else. Two runes are equal as keys just if their
texts are, whichever is asked about the other. -/
theorem runes_read_back (config : Config) (before : List Operation) (s : String) :
    ∃ c g, makeRune s ((Heap.new config).run before) = .ok c g ∧
      Allotted ((Heap.new config).run before) g c s ∧
      (∀ ops, (∀ id ∈ c.references, ∀ op ∈ ops, op.Spares id) → Reads (g.run ops) c s) ∧
      ∀ between t, (∀ id ∈ c.references, ∀ op ∈ between, op.Spares id) →
        ∃ d k, makeRune t (g.run between) = .ok d k ∧
          ∀ ops, (∀ id ∈ c.references ++ d.references, ∀ op ∈ ops, op.Spares id) →
            Map.keysEqual (k.run ops) c d = .ok (decide (s = t)) ∧
              Map.keysEqual (k.run ops) d c = .ok (decide (s = t)) := by
  obtain ⟨c, g, hx, hg, hc, hallot⟩ := makeRune_apply (Heap.reachable_sound config before) s
  refine ⟨c, g, hx, hallot, fun ops hops => (run_isRune ops hg hc hops).reads, ?_⟩
  intro between t hbetween
  have hsound := Heap.run_sound between hg
  have hlater := run_isRune between hg hc hbetween
  obtain ⟨d, k, hy, hk, hd, _⟩ := makeRune_apply hsound t
  refine ⟨d, k, hy, fun ops hops => ?_⟩
  have hkept : IsRune k c s := hlater.makeRune hsound hy
  have holder := run_isRune ops hk hkept fun id hid => hops id (List.mem_append_left _ hid)
  have hnewer := run_isRune ops hk hd fun id hid => hops id (List.mem_append_right _ hid)
  refine ⟨holder.keysEqual hnewer, ?_⟩
  rw [hnewer.keysEqual holder]
  simp only [eq_comm]

/-- Eight characters of two bytes each: the buffer withstands the edits tried through the rune. -/
theorem runes_read_back_long :
    let s := "éééééééé"
    let c := Cell.bare .rune (.series ⟨0, 0⟩ 0)
    let ops := [.appendText c "x", .truncate c 0, .removeAt c 1, .sweep fun id => id.index == 0]
    s.utf8ByteSize = 16 ∧ (∀ id ∈ c.references, ∀ op ∈ ops, op.Spares id) ∧
    ∃ g, makeRune s (.new {}) = .ok c g ∧ text (g.run ops) c = .ok s ∧
      Render.mold (g.run ops) c = .ok "#éééééééé" ∧
      ∃ d k, makeRune "é" (g.run ops) = .ok d k ∧ Map.keysEqual k c d = .ok false ∧
        Map.keysEqual k d c = .ok false := by
  intro s c ops
  have hmake : makeRune s (.new {}) = .ok c ((makeRune s).after (.new {})) :=
    HeapM.eq_ok_after (by decide +kernel)
  have hops : ∀ id ∈ c.references, ∀ op ∈ ops, op.Spares id := by
    simp [c, ops, Cell.references, Cell.bare, Operation.Spares]
  obtain ⟨c', g, hx, _, hreads, hkeys⟩ := runes_read_back {} [] s
  cases hmake.symm.trans hx
  obtain ⟨d, k, hd, hequal⟩ := hkeys ops "é" hops
  exact ⟨by decide +kernel, hops, _, hmake, (hreads ops hops).text, (hreads ops hops).mold, d, k, hd,
    hequal [] (by simp)⟩

end CellHeap.Strings
