import CellHeap.Proofs.Cell.Request

/-!
# Workshops

A workshop has any number of heaps, and cells pass freely from one to another: a
cell copied out of one heap may be stored in the next, where its handles mean
something else or nothing. Headers are valid all the same, in hand and in every
buffer, and no request on a cell in the workshop makes an invalid one.
-/

set_option autoImplicit false

namespace CellHeap

inductive Workshop : List Heap → List Cell → Prop
  | start : Workshop [] []
  | found {hs : List Heap} {held : List Cell} (hw : Workshop hs held) (config : Config) :
      Workshop (.new config :: hs) held
  | primitive {hs : List Heap} {held : List Cell} {c : Cell} (hw : Workshop hs held)
      (hc : c.Primitive) : Workshop hs (c :: held)
  | rework {hs : List Heap} {held : List Cell} {h : Heap} {c d : Cell} (hw : Workshop hs held)
      (hc : c ∈ held) (hd : c.Reworked h d) : Workshop hs (d :: held)
  | assign {hs : List Heap} {held : List Cell} {slot value d : Cell} (hw : Workshop hs held)
      (hslot : slot ∈ held) (hvalue : value ∈ held)
      (hd : Variable.assign slot value = .ok d ∨ Variable.assignMeta slot value = .ok d) :
      Workshop hs (d :: held)
  | copy {hs : List Heap} {held : List Cell} {h : Heap} {id : BufferId} {b : Buffer} {c : Cell}
      (hw : Workshop hs held) (hh : h ∈ hs) (hb : h.read id = .ok b) (hc : c ∈ b.stored) :
      Workshop hs (c :: held)
  | element {hs : List Heap} {held : List Cell} {h : Heap} {c d : Cell} {i : Nat}
      (hw : Workshop hs held) (hh : h ∈ hs) (hc : c ∈ held)
      (hd : Sequence.elementAt h c i = .ok d) : Workshop hs (d :: held)
  | perform {before others : List Heap} {h : Heap} {held : List Cell} {op : Operation}
      (hw : Workshop (before ++ h :: others) held) (hc : ∀ c ∈ op.cells, c ∈ held) :
      Workshop (before ++ op.after h :: others) (op.made h ++ held)

namespace Workshop

variable {hs : List Heap} {held : List Cell}

theorem coherent (hw : Workshop hs held) :
    (∀ h ∈ hs, h.Sound ∧ h.Stores fun _ c => c.Coherent) ∧ ∀ c ∈ held, c.Coherent := by
  induction hw with
  | start => simp
  | found _ config ih =>
    refine ⟨List.forall_mem_cons.2 ⟨⟨Heap.sound_new config, ?_⟩, ih.1⟩, ih.2⟩
    intro id b hb
    cases hb
  | primitive _ hc ih => exact ⟨ih.1, List.forall_mem_cons.2 ⟨hc.coherent, ih.2⟩⟩
  | rework _ hc hd ih => exact ⟨ih.1, List.forall_mem_cons.2 ⟨(ih.2 _ hc).reworked hd, ih.2⟩⟩
  | assign _ _ hv hd ih =>
    have hassigned := (Cell.coherent_invariant fun _ _ => True).assigned (h := .new {}) (ih.2 _ hv) hd
    exact ⟨ih.1, List.forall_mem_cons.2 ⟨hassigned, ih.2⟩⟩
  | copy _ hh hb hc ih =>
    have hstored := (ih.1 _ hh).2 _ _ (Heap.buffer?_of_read hb) _ hc
    exact ⟨ih.1, List.forall_mem_cons.2 ⟨hstored, ih.2⟩⟩
  | element _ hh _ hd ih =>
    have helement := Cell.coherent_of_elementAt (ih.1 _ hh).2 hd
    exact ⟨ih.1, List.forall_mem_cons.2 ⟨helement, ih.2⟩⟩
  | @perform before others h held op _ hc ih =>
    obtain ⟨hheaps, hheld⟩ := ih
    rw [List.forall_mem_append, List.forall_mem_cons] at hheaps ⊢
    obtain ⟨hbefore, ⟨hsound, hst⟩, hothers⟩ := hheaps
    -- one heap moves, with cells that may come from any of them
    obtain ⟨hsound', hst', _⟩ :=
      (Cell.coherent_invariant fun _ _ => True).after_keeps hsound hst hheld trivial hc
    refine ⟨⟨hbefore, ⟨hsound', hst'⟩, hothers⟩, List.forall_mem_append.2 ⟨?_, hheld⟩⟩
    apply Operation.made_of_perform
    rintro a h' hx c rfl
    exact Cell.coherent_of_made (Operation.makes_of_perform hx)

/-- Every header in a workshop is valid. A request on a cell in it is granted just if it asks for
a valid header and is not barred, and then makes that header; if not, the cell stays as it is. -/
theorem headers_valid {c : Cell} (hw : Workshop hs held)
    (hc : c ∈ held ∨ ∃ h ∈ hs, ∃ id b, h.buffer? id = some b ∧ c ∈ b.stored) :
    c.header.Valid ∧ ∀ r : Request,
      (¬ (r.target c.header).Valid → ∃ e, r.apply c = .error e ∧ r.after c = c) ∧
      ((r.target c.header).Valid → ¬ r.Barred c →
        ∃ d, r.apply c = .ok d ∧ d.header = r.target c.header) ∧
      (r.after c).header.Valid := by
  have hcoh : c.Coherent := by
    rcases hc with hc | ⟨h, hh, id, b, hb, hc⟩
    · exact hw.coherent.2 c hc
    · exact (hw.coherent.1 h hh).2 id b hb c hc
  refine ⟨Cell.header_valid_iff.2 hcoh, fun r => ?_⟩
  unfold Request.after
  cases hr : r.apply c with
  | ok d =>
    have hgranted := (Request.apply_eq_ok_iff hcoh).1 ⟨d, hr⟩
    refine ⟨fun hv => absurd hgranted.1 hv, fun _ _ => ⟨d, rfl, Request.apply_header hr⟩, ?_⟩
    rw [Request.apply_header hr]
    exact hgranted.1
  | error e =>
    refine ⟨fun _ => ⟨e, rfl, rfl⟩, fun hv hb => ?_, Cell.header_valid_iff.2 hcoh⟩
    obtain ⟨d, hd⟩ := (Request.apply_eq_ok_iff hcoh).2 ⟨hv, hb⟩
    rw [hr] at hd
    cases hd

/-- A quoted quasiform over a list of one heap, stored in a list of another. -/
theorem headers_valid_foreign :
    let list := Cell.bare .group (.series ⟨0, 0⟩ 0)
    let c := { list with lift := .quoted ⟨126, by decide, by decide⟩ true }
    let g := (Operation.makeList .group []).after (.new {})
    let h := (Operation.makeList .block [c]).after (.new {})
    let pin := Request.setSigil (some .pin)
    (∃ held, Workshop [h, g] held) ∧ (∃ b, h.buffer? ⟨0, 0⟩ = some b ∧ c ∈ b.stored) ∧
    c.header.Valid ∧ ¬ (pin.target c.header).Valid ∧
      ∃ e, pin.apply c = .error e ∧ pin.after c = c := by
  intro list c g h pin
  have hnew : Workshop [.new {}, .new {}] [] := .found (.found .start {}) {}
  have hgroup : Workshop [.new {}, g] [list] :=
    @perform [.new {}] [] (.new {}) [] (.makeList .group []) hnew (by simp [Operation.cells])
  have hquasi := hgroup.rework (h := g) (c := list) (by simp) (.toQuasiform rfl)
  have hquoted := hquasi.rework (h := g) (c := { list with lift := .quasi }) (d := c) (by simp)
    (.quotify (n := 126) rfl)
  have hblock : Workshop [h, g] _ :=
    @perform [] [g] (.new {}) _ (.makeList .block [c]) hquoted (by simp [Operation.cells])
  have hstored : ∃ b, h.buffer? ⟨0, 0⟩ = some b ∧ c ∈ b.stored :=
    ⟨_, rfl, List.mem_singleton.2 rfl⟩
  obtain ⟨hvalid, hrequests⟩ := headers_valid (c := c) hblock
    (Or.inr ⟨h, by simp, ⟨0, 0⟩, hstored⟩)
  have hpin : ¬ (pin.target c.header).Valid := by
    intro hv
    have hnone := (hv.form fun hf => Form.noConfusion hf).2
    cases hnone
  exact ⟨⟨_, hblock⟩, hstored, hvalid, hpin, (hrequests pin).1 hpin⟩

end Workshop

end CellHeap
