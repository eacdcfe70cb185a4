import CellHeap.Proofs.Heap.Frozen
import CellHeap.Proofs.Heap.Reach
import CellHeap.Proofs.Render.Descent
import CellHeap.Proofs.Session.Homes
import CellHeap.Proofs.Symbol

/-!
# Frozen renderings

Rendering reads only buffers in the reach of a cell and spells only symbols that
stand in them. A deep freeze fixes what the readable ones show, an issued handle
that cannot be read never can be again as long as no generation comes round, and
interning adds spellings without changing one. So what a deeply frozen cell renders
to stays the same, whatever happens to the rest of the heap.
-/

set_option autoImplicit false

namespace CellHeap

def Cell.phase? (c : Cell) : Option BufferId :=
  match c.payload with
  | .frame _ (.phase p) => some p
  | _ => none

theorem Cell.home?_or_phase? {c : Cell} {id : BufferId} (hid : id ∈ c.references) :
    c.home? = some id ∨ c.phase? = some id := by
  unfold home? phase?
  unfold references at hid ⊢
  split at hid <;> simp_all [eq_comm]

namespace Heap

variable {h h' : Heap} {c : Cell} {op : Operation}

def Interned (h : Heap) (s : Symbol) : Prop := s.number < h.symbols.size

structure Grown (h h' : Heap) : Prop where
  slots : h.slots.size ≤ h'.slots.size
  interned : ∀ s, h.Interned s → h'.Interned s
  spelling : ∀ s, h.Interned s → h'.spelling s = h.spelling s

theorem Grown.of_symbols {g : Heap} (hg : h.Grown g) (hslots : g.slots.size ≤ h'.slots.size)
    (hs : h'.symbols = g.symbols) : h.Grown h' := by
  constructor
  · exact Nat.le_trans hg.slots hslots
  · intro s hi
    rw [Interned, hs]
    exact hg.interned s hi
  · intro s hi
    have hspelling : h'.spelling s = g.spelling s := by simp only [Heap.spelling, hs]
    exact hspelling.trans (hg.spelling s hi)

theorem size_place (h : Heap) (b : Buffer) : h.slots.size ≤ (h.place b).2.slots.size := by
  unfold place
  cases h.free with
  | nil => simp
  | cons i rest => simp

theorem step_grown {g : Heap} (hg : h.Grown g) (hstep : op.Step g h') : h.Grown h' := by
  have hset : ∀ (id : BufferId) (b : Buffer), h.Grown (g.setBuffer id b) := fun id b =>
    hg.of_symbols (Nat.le_of_eq (Array.size_modify ..).symm) rfl
  have hvacate : ∀ id : BufferId, h.Grown (g.vacate id) := fun id =>
    hg.of_symbols (Nat.le_of_eq (Array.size_modify ..).symm) rfl
  cases hstep with
  | intern s =>
    refine ⟨hg.slots, fun t ht => ?_, fun t ht => ?_⟩
    · exact Nat.lt_of_lt_of_le (hg.interned t ht) (g.symbols.size_intern s)
    · exact (SymbolTable.resolve_intern (hg.interned t ht) s).trans (hg.spelling t ht)
  | place b => exact hg.of_symbols (size_place g b) (symbols_place g b)
  | edit id _ b' => exact hset id b'
  | manage id | freeze id | decay id => exact hset id _
  | release id | sweep _ id => exact hvacate id

theorem run_grown (h : Heap) (ops : List Operation) : h.Grown (h.run ops) :=
  run_induction h.Grown ops ⟨Nat.le_refl _, fun _ hi => hi, fun _ _ => rfl⟩ fun _ _ _ => step_grown

def Shows (h : Heap) (c d : Cell) : Prop :=
  d = c ∨ ∃ id b, h.Reaches c id ∧ h.read id = .ok b ∧ d ∈ b.stored

/-- All that is in the reach of the cell belongs to the heap: its symbols are interned, and the
phases that frames run are issued. -/
structure Native (h : Heap) (c : Cell) : Prop where
  symbols : ∀ d, h.Shows c d → ∀ s ∈ d.symbols, h.Interned s
  labels : ∀ id b s, h.Reaches c id → h.read id = .ok b → b.label = some s → h.Interned s
  phases : ∀ d, h.Shows c d → ∀ p, d.phase? = some p → h.Issued p

/-- Every handle in the reach of a cell is issued, as the phases are. -/
theorem issued_of_reaches {id : BufferId} (hst : h.Stores Homed) (hk : h.KeysIssued)
    (hc : h.Homed c) (hn : h.Native c) (hid : h.Reaches c id) : h.Issued id := by
  have hcell : ∀ d, h.Homed d → h.Shows c d → ∀ j ∈ d.references, h.Issued j := by
    intro d hd hshown j hj
    rcases Cell.home?_or_phase? hj with hj | hj
    · exact hd j hj
    · exact hn.phases d hshown j hj
  obtain ⟨i, hi, hl⟩ := hid
  cases hl with
  | refl => exact hcell c hc (Or.inl rfl) _ hi
  | @tail j _ hl hlead =>
    obtain ⟨b, hb, hmem⟩ := leads_iff.1 hlead
    rcases Buffer.mem_references.1 hmem with hkey | ⟨d, hd, _, href⟩
    · exact hk j b _ (buffer?_of_read hb) hkey
    · exact hcell d (hst j b (buffer?_of_read hb) d hd) (Or.inr ⟨j, b, ⟨i, hi, hl⟩, hb, hd⟩) _ href

/-- What the reach of a cell shows, another heap shows too. -/
theorem agree_of_sight (hn : h.Native c) (hsight : ∀ id, h.Reaches c id → h'.sight id = h.sight id)
    (hg : h.Grown h') : h.Agree (h.Reaches c) h.Interned h' := by
  constructor
  · exact hsight
  · intro id b hid hb j hj
    exact hid.tail (leads_iff.2 ⟨b, hb, hj⟩)
  · exact hg.spelling
  · intro id b hid hb s hs
    rcases List.mem_append.1 hs with hs | hs
    · exact hn.labels id b s hid hb (Option.mem_toList.1 hs)
    · obtain ⟨d, hd, hs⟩ := List.mem_flatMap.1 hs
      exact hn.symbols d (Or.inr ⟨id, b, hid, hb, hd⟩) s hs

/-- A heap with more slots has depth to spare. -/
theorem Agree.mold {M : BufferId → Prop} {N : Symbol → Prop} (ha : h.Agree M N h')
    (hst : h.Stores Graded) (hg : h.Graded c) (hc : c.Covered M N)
    (hsize : h.slots.size ≤ h'.slots.size) : Render.mold h' c = Render.mold h c := by
  have hload := Render.load_le_depthBound h [] c
  have hdepth : Render.depthBound h ≤ Render.depthBound h' :=
    Nat.mul_le_mul (by omega) (by omega)
  have hsettled := Render.upTo_settled hst (Render.depthBound h') (Render.depthBound h) [] c hg
    (Nat.le_trans hload hdepth) hload
  unfold Render.mold Render.render
  rw [ha.upTo _ [] hc, hsettled.1]

/-- A row of silent operations, one for each buffer, is a run. -/
theorem run_of_forM {f : BufferId → HeapM Unit} {act : BufferId → Operation}
    (hact : ∀ id, (act id).perform = Operation.silent (f id)) {ids : List BufferId}
    (hx : ids.forM f h = .ok () h') : h' = h.run (ids.map act) := by
  induction ids generalizing h with
  | nil => exact (HeapM.of_pure hx).2
  | cons id ids ih =>
    obtain ⟨_, g, hid, hx⟩ := HeapM.of_bind hx
    have hg : (act id).after h = g := (after_of_silent (hact id) h).trans (HeapM.after_of_ok hid)
    rw [List.map_cons, run_cons, hg]
    exact ih hx

/-- A deep freeze is the run that freezes what the walk has found. -/
theorem freezeDeep_of_reachable {id : BufferId} {ids : List BufferId} (hr : h.reachable id = ids)
    (hid : h.isReadable id = true) (hz : (ids.forM freeze).value? h = some ()) :
    freezeDeep id h = .ok () (h.run (ids.map .freeze)) := by
  obtain ⟨b, hb⟩ := isReadable_iff.1 hid
  have hdeep : freezeDeep id h = (h.reachable id).forM freeze h := HeapM.reading_of_ok hb _
  have hx := HeapM.eq_ok_after hz
  have hrun : (ids.forM freeze).after h = h.run (ids.map .freeze) := run_of_forM (fun _ => rfl) hx
  rw [hdeep, hr, hx, hrun]

/-- What a deeply frozen cell shows does not change while its buffers can be read. -/
theorem sight_of_frozen {h₁ : Heap} {id : BufferId} (hs : h.Sound) (hi : h.Issued id)
    (hid : h.Reaches c id) (hx : c.references.forM freezeDeep h = .ok () h₁) (ops : List Operation)
    (hops : h₁.Throughout Operation.Advances ops)
    (hlive : h.isReadable id = true → (h₁.run ops).isReadable id = true) :
    (h₁.run ops).sight id = h.sight id := by
  obtain ⟨hh, hz⟩ := frozen_of_reaches hx
  have hrun : h₁ = h.run (c.references.map .freezeDeep) := run_of_forM (fun _ => rfl) hx
  by_cases hr : h.isReadable id = true
  · obtain ⟨b, hb, hfrozen⟩ := bind_eq_ok_iff.1 (hz id hid hr)
    obtain ⟨b', hb'⟩ := isReadable_iff.1 (hlive hr)
    have hs₁ : h₁.Sound := hrun ▸ run_sound _ hs
    have hstays := retains_of_advances ops hops hs₁ (issued_of_buffer? (buffer?_of_read hb))
      (buffer?_of_read hb')
    have hsame : b' = _ := run_unaltered ops hstays hs₁ hb (Except.ok.inj hfrozen) hb'
    have hsight : (h₁.run ops).sight id = h₁.sight id := by
      apply sight_of_ok hb hb'
      rw [hsame]
      rfl
    rw [hsight, hh.sight id]
  · have hfreezes : h.Throughout Operation.Advances (c.references.map .freezeDeep) :=
      advances_of_forall _ (by simp [Operation.releases])
    have hlost₁ : h₁.Lost id := hrun ▸ run_lost _ hfreezes ⟨hs, hi, hr⟩
    have hlost : (h₁.run ops).Lost id := run_lost ops hops hlost₁
    apply sight_of_read
    rw [read_of_not_readable hr, read_of_not_readable hlost.unreadable]

end Heap

namespace Session

open Heap

/-- Once every buffer of a cell is frozen deeply, the cell renders as it did right after that, to
the same text or the same fault, after any run of operations that takes away none of the buffers
in its reach and no generation back. -/
theorem frozen_mold_constant {config : Config} {h h₁ : Heap} {held : List Cell} {c : Cell}
    (hs : Session Operation.Advances config h held)
    (hc : c ∈ held ∨ ∃ id b, h.read id = .ok b ∧ c ∈ b.stored) (hn : h.Native c)
    (hfreeze : c.references.forM freezeDeep h = .ok () h₁) (ops : List Operation)
    (hops : h₁.Throughout Operation.Advances ops)
    (hlive : ∀ id, h.Reaches c id → h.isReadable id = true → (h₁.run ops).isReadable id = true) :
    Render.mold (h₁.run ops) c = Render.mold h₁ c := by
  obtain ⟨held, hs, hc⟩ : ∃ held, Session Operation.Advances config h held ∧ c ∈ held := by
    rcases hc with hc | ⟨id, b, hb, hc⟩
    · exact ⟨held, hs, hc⟩
    · exact ⟨c :: held, hs.copy hb hc, by simp⟩
  obtain ⟨hsound, hhomed, hhome⟩ := hs.keeps (homed_invariant forward_advances)
  obtain ⟨_, hst, hgraded⟩ := hs.keeps (graded_invariant forward_advances)
  have hissued : ∀ id, h.Reaches c id → h.Issued id := fun id =>
    issued_of_reaches hhomed (hs.keysIssued forward_advances) (hhome c hc) hn
  have hcovered : c.Covered (h.Reaches c) h.Interned := fun _ =>
    ⟨fun id hid => ⟨id, hid, .refl⟩, hn.symbols c (Or.inl rfl)⟩
  -- both heaps show what the heap before the freeze showed
  have hsame : ∀ h', (∀ id, h.Reaches c id → h'.sight id = h.sight id) → h.Grown h' →
      Render.mold h' c = Render.mold h c := fun h' hsight hg =>
    (agree_of_sight hn hsight hg).mold hst (hgraded c hc) hcovered hg.slots
  have hgrown : ∀ rest, h.Grown (h₁.run rest) := by
    intro rest
    rw [run_of_forM (fun id => (rfl : (Operation.freezeDeep id).perform = _)) hfreeze, ← run_append]
    exact run_grown h _
  have hlater := hsame (h₁.run ops) (fun id hid =>
    sight_of_frozen hsound (hissued id hid) hid hfreeze ops hops (hlive id hid)) (hgrown ops)
  have hfrozen := hsame h₁ (fun id _ => (frozen_of_reaches hfreeze).1.sight id) (hgrown [])
  rw [hlater, hfrozen]

/-- An object whose only variable is a list that holds the object. After the freeze neither can be
written or extended, and what is interned and made later does not show. -/
theorem frozen_mold_constant_cycle :
    let list := Cell.bare .block (.series ⟨0, 0⟩ 0)
    let object := Cell.bare .object (.context ⟨2, 0⟩)
    let h := (Heap.new {}).run [.intern "a", .makeList .block [],
      .makeContext .object [(⟨0⟩, list)], .appendCells list [object]]
    let h₁ := h.run [.freeze ⟨0, 0⟩, .freeze ⟨1, 0⟩, .freeze ⟨2, 0⟩]
    let later := h₁.run [.appendCells list [list], .writeVariable object ⟨0⟩ .blank, .intern "b",
      .appendVariable object ⟨1⟩ list, .makeList .group [object], .manage ⟨2, 0⟩]
    h.Native object ∧ object.references.forM freezeDeep h = .ok () h₁ ∧
      Render.mold h₁ object = .ok "#[object! [a: [#[object! [...]]]]]" ∧
      Render.mold later object = Render.mold h₁ object := by
  intro list object h h₁ later
  have hstart : Session Operation.Advances {} (.new {}) [] := .start
  have hintern : Session Operation.Advances {} (Heap.run (.new {}) [.intern "a"]) [] :=
    @perform _ _ _ _ (.intern "a") hstart (Operation.advances rfl _) (by simp [Operation.cells])
  have hlist : Session Operation.Advances {} (Heap.run (.new {}) [.intern "a", .makeList .block []])
      [list] :=
    @perform _ _ _ _ (.makeList .block []) hintern (Operation.advances rfl _) (by simp [Operation.cells])
  have hobject : Session Operation.Advances {} (Heap.run (.new {}) [.intern "a", .makeList .block [],
      .makeContext .object [(⟨0⟩, list)]]) [object, list] :=
    @perform _ _ _ _ (.makeContext .object [(⟨0⟩, list)]) hlist (Operation.advances rfl _)
      (by simp [Operation.cells])
  have hs : Session Operation.Advances {} h [object, list] :=
    @perform _ _ _ _ (.appendCells list [object]) hobject (Operation.advances rfl _) (by simp [Operation.cells])
  have hall : ∀ id ∈ [(⟨2, 0⟩ : BufferId), ⟨1, 0⟩, ⟨0, 0⟩], ∀ b ∈ (h.read id).toOption,
      b.label = none ∧ b.references ⊆ [⟨2, 0⟩, ⟨1, 0⟩, ⟨0, 0⟩] ∧
      ∀ d ∈ b.stored, d.phase? = none ∧ ∀ s ∈ d.symbols, s.number < 1 := by decide +kernel
  have hreach : ∀ id, h.Reaches object id → id ∈ [(⟨2, 0⟩ : BufferId), ⟨1, 0⟩, ⟨0, 0⟩] := by
    intro id hid
    apply hid.closed (by decide)
    intro i j hi hl
    obtain ⟨b, hb, hj⟩ := leads_iff.1 hl
    exact (hall i hi b (by rw [hb]; rfl)).2.1 hj
  have hshown : ∀ d, h.Shows object d → d.phase? = none ∧ ∀ s ∈ d.symbols, s.number < 1 := by
    rintro d (rfl | ⟨id, b, hid, hb, hd⟩)
    · decide
    · exact (hall id (hreach id hid) b (by rw [hb]; rfl)).2.2 d hd
  have hnative : h.Native object := by
    constructor
    · intro d hd s hs
      have hsize : 1 ≤ h.symbols.size := by decide +kernel
      exact Nat.lt_of_lt_of_le ((hshown d hd).2 s hs) hsize
    · intro id b s hid hb hl
      have hlabel := (hall id (hreach id hid) b (by rw [hb]; rfl)).1
      cases hlabel.symm.trans hl
    · intro d hd p hp
      cases (hshown d hd).1.symm.trans hp
  have hreachable : h.reachable ⟨2, 0⟩ = [⟨0, 0⟩, ⟨1, 0⟩, ⟨2, 0⟩] := by
    have hslots : h.children ⟨2, 0⟩ = .ok [⟨1, 0⟩, ⟨0, 0⟩] := by decide
    have hkeys : h.children ⟨1, 0⟩ = .ok [] := by decide
    have hcells : h.children ⟨0, 0⟩ = .ok [⟨2, 0⟩] := by decide
    calc h.walk [] [⟨2, 0⟩]
        = h.walk [⟨2, 0⟩] [⟨1, 0⟩, ⟨0, 0⟩] := walk_of_children (by decide) hslots
      _ = h.walk [⟨1, 0⟩, ⟨2, 0⟩] [⟨0, 0⟩] := walk_of_children (by decide) hkeys
      _ = h.walk [⟨0, 0⟩, ⟨1, 0⟩, ⟨2, 0⟩] [⟨2, 0⟩] := walk_of_children (by decide) hcells
      _ = h.walk [⟨0, 0⟩, ⟨1, 0⟩, ⟨2, 0⟩] [] := walk_of_mem (by decide)
      _ = [⟨0, 0⟩, ⟨1, 0⟩, ⟨2, 0⟩] := by rw [walk]
  have hfreeze : object.references.forM freezeDeep h = .ok () h₁ := by
    have hdeep := freezeDeep_of_reachable hreachable (by decide) (by decide)
    have hone : ([⟨2, 0⟩] : List BufferId).forM freezeDeep = freezeDeep ⟨2, 0⟩ := by simp
    exact (congrFun hone h).trans hdeep
  refine ⟨hnative, hfreeze, by decide +kernel, ?_⟩
  apply frozen_mold_constant hs (by simp) hnative hfreeze _ (advances_of_forall _ (by decide))
  intro id hid _
  have hlive : ∀ id ∈ [(⟨2, 0⟩ : BufferId), ⟨1, 0⟩, ⟨0, 0⟩], later.isReadable id = true := by
    decide +kernel
  exact hlive id (hreach id hid)

end Session

end CellHeap
