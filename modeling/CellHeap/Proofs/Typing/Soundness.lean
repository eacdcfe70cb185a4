import CellHeap.Proofs.Render.Depth
import CellHeap.Proofs.Typing.Operations

/-!
# Cells can be read for what they are

In every state of a forward session, the cells in hand and the cells in all buffers
are in the shape that their kind dictates, so no reader of that kind ever finds a
payload or contents that it can not handle. Once a slot has come round to an earlier
generation this is over: a cell that was kept names whatever the slot holds then.
-/

set_option autoImplicit false

namespace CellHeap

/-- The readers of the kind of a cell fail for released data or a stale position only. A variable
can be read if the keys can, unless its key is not among them. -/
structure Heap.Legible (h : Heap) (c : Cell) : Prop where
  text : c.kind.isString = true ∨ c.kind = .rune → h.Excusable c (Strings.text h c)
  bytes : c.kind = .blob → h.Excusable c (Series.bytesAt h c)
  cells : c.kind.isList = true → h.Excusable c (Series.cellsAt h c)
  elements : c.kind.isSequence = true → h.Excusable c (Sequence.elements h c)
  parts : c.kind = .pair → h.Excusable c (Pair.parts h c)
  keys : c.kind.isContext = true → h.Excusable c (Context.keys h c)
  read : c.kind.isContext = true → ∀ key e, Context.read h c key = .error e →
    Context.keys h c = .error e ∨
      e = .missingKey ∧ ∃ ks, Context.keys h c = .ok ks ∧ key ∉ ks
  pairs : c.kind = .map → h.Excusable c (Map.pairs h c)
  spec : c.kind = .parameter → h.Excusable c (Parameter.spec h c)
  label : c.kind = .frame → h.Excusable c (Frame.label h c)
  mold : ∀ halt, Render.mold h c = .error halt →
    ∃ d e, halt = .fault e ∧ Relation.ReflTransGen h.Within c d ∧ h.Excuses d e

namespace Heap

variable {R : Roles} {h : Heap} {c : Cell}

theorem Consistent.legible (hc : h.Consistent R) (ht : c.Typed R) : h.Legible c := by
  have hs := hc.shaped ht
  constructor
  · exact hs.text
  · exact fun hk => Series.bytesAt_excusable (hs.seriesOf_bytes hk)
  · exact fun hk => Series.cellsAt_excusable (hs.seriesOf_cells hk)
  · exact hs.elements
  · exact hs.parts
  · exact hs.keys
  · exact fun hk key e => hs.read hk
  · exact hs.pairs
  · exact hs.spec
  · exact hs.label
  · exact fun halt => Render.mold_eq_error hc ht

end Heap

namespace Session

/-- Whatever a session has done, as long as no slot has come back to an earlier generation, every
cell in hand or in a buffer has the payload that its kind dictates over buffers of the right shape,
and can be read as its kind says. -/
theorem shaped_legible {config : Config} {h : Heap} {held : List Cell} {c : Cell}
    (hs : Session (fun g op => op.Admitted ∧ op.Advances g) config h held)
    (hc : c ∈ held ∨ ∃ id b, h.buffer? id = some b ∧ c ∈ b.stored) :
    h.Shaped c ∧ h.Legible c := by
  obtain ⟨R, hcons, hheld⟩ := hs.typed
  have ht : c.Typed R := by
    rcases hc with hc | ⟨id, b, hb, hc⟩
    · exact hheld c hc
    · exact hcons.stored id b hb c hc
  exact ⟨hcons.shaped ht, hcons.legible ht⟩

/-- A position at the end of a list that is then cut. -/
theorem shaped_legible_stale :
    let list := Cell.bare .block (.series ⟨0, 0⟩ 0)
    let tail := Cell.bare .block (.series ⟨0, 0⟩ 2)
    let h := Heap.run (.new {}) [.makeList .block [.blank, .blank], .truncate list 0]
    Series.cellsAt h tail = .error (.outOfRange 2 0) ∧ h.Shaped tail ∧ h.Legible tail := by
  intro list tail h
  have hblank : Session (fun g op => op.Admitted ∧ op.Advances g) {} (.new {}) [.blank] :=
    .primitive .start .blank
  have hop : (Operation.makeList .block [.blank, .blank]).Admitted := rfl
  have hmake := hblank.perform ⟨hop, Operation.advances rfl _⟩ (by simp [Operation.cells])
  have hmade : (Operation.makeList .block [.blank, .blank]).made (.new {}) = [list] := rfl
  rw [hmade] at hmake
  have htail := hmake.rework (c := list) (d := tail) (by simp) (.tail rfl)
  have hop' : (Operation.truncate list 0).Admitted := trivial
  have hcut := htail.perform ⟨hop', Operation.advances rfl _⟩ (by simp [Operation.cells])
  refine ⟨by decide, shaped_legible (c := tail) hcut ?_⟩
  exact Or.inl (by simp)

/-- A text is swept, its slot comes round, and a list is made there. The session still holds the
text, which names the list now and can not be read. -/
theorem stale_text_names_list :
    let text := Cell.bare .text (.series ⟨0, 0⟩ 0)
    let h := (Operation.makeList .block []).after (.vacant {} 0)
    (∃ held, Session (fun _ op => op.Admitted) {} h held ∧ text ∈ held) ∧
      Strings.text h text = .error (.elementKind "texte" "text!") ∧
      ¬ h.Shaped text ∧ ¬ h.Legible text := by
  intro text h
  have hfault : Strings.text h text = .error (.elementKind "texte" "text!") := by decide
  refine ⟨?_, hfault, fun hs => ?_, fun hl => ?_⟩
  · have hstart : Session (fun _ op => op.Admitted) {} (.new {}) [] := .start
    have htext := @perform _ _ _ _ (.makeString .text "x") hstart rfl (by simp [Operation.cells])
    obtain ⟨held, hs, hkept⟩ := htext.comes_round rfl (fun _ => trivial) fun _ _ => trivial
    have hlist := @perform _ _ _ _ (.makeList .block []) hs rfl (by simp [Operation.cells])
    have hmade : (Operation.makeString .text "x").made (.new {}) = [text] := rfl
    exact ⟨_, hlist, List.mem_append_right _ (hkept text (by simp [hmade]))⟩
  · obtain ⟨_⟩ := hs.text (Or.inl rfl) _ hfault
  · obtain ⟨_⟩ := hl.text (Or.inl rfl) _ hfault

end Session

end CellHeap
