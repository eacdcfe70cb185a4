import CellHeap.Proofs.Session.Invariant
import CellHeap.Proofs.Typing.Role

/-!
# Sequences and pairs nest to a bounded depth

The elements of a sequence and the parts of a pair are of a lower rank than the
cell around them. The grammar sees to that when the cell is made, and the buffer
is frozen from the start, so it stays so in every forward session, also where a
series, list or context was made under a kind that it is not meant for.
-/

set_option autoImplicit false

namespace CellHeap

open HeapM

namespace Cell

def isCompound (c : Cell) : Bool :=
  match c.payload with
  | .sequence _ | .pairing _ => true
  | _ => false

def inner? (c : Cell) : Option BufferId :=
  match c.payload with
  | .sequence (.pair id) | .sequence (.array id) | .pairing id => some id
  | _ => none

theorem isCompound_of_inner? {c : Cell} {id : BufferId} (hc : c.inner? = some id) :
    c.isCompound = true := by
  unfold inner? at hc
  unfold isCompound
  split at hc <;> simp_all

theorem inner?_eq_some {c : Cell} {id : BufferId} (hc : c.isCompound = true)
    (hid : id ∈ c.references) : c.inner? = some id := by
  unfold isCompound at hc
  unfold references at hid
  unfold inner?
  split at hc <;> simp_all
  split at hid <;> simp_all

theorem mem_references_of_inner? {c : Cell} {id : BufferId} (hc : c.inner? = some id) :
    id ∈ c.references := by
  unfold inner? at hc
  unfold references
  split at hc <;> cases hc <;> simp_all

end Cell

structure Heap.Graded (h : Heap) (c : Cell) : Prop where
  rank : c.isCompound = true → 1 < c.kind.rank
  issued : ∀ id, c.inner? = some id → h.Issued id
  inner : ∀ id b, c.inner? = some id → h.buffer? id = some b →
    b.frozen = true ∧ ∀ d ∈ b.stored, d.kind.rank < c.kind.rank

namespace Heap

variable {h h' : Heap} {c d : Cell} {op : Operation}

theorem graded_of_simple (hc : c.isCompound = false) : h.Graded c := by
  have hnone : ∀ id, c.inner? ≠ some id := by
    intro id hid
    rw [Cell.isCompound_of_inner? hid] at hc
    cases hc
  constructor
  · intro hcomp
    rw [hc] at hcomp
    cases hcomp
  · exact fun id hid => absurd hid (hnone id)
  · exact fun id _ hid => absurd hid (hnone id)

theorem Graded.rehead (hg : h.Graded c) (hr : c.Rehead d) : h.Graded d := by
  have hcomp : d.isCompound = c.isCompound := by simp only [Cell.isCompound, hr.payload]
  have hinner : d.inner? = c.inner? := by simp only [Cell.inner?, hr.payload]
  constructor
  · rw [hcomp, hr.kind]
    exact hg.rank
  · rw [hinner]
    exact hg.issued
  · rw [hinner, hr.kind]
    exact hg.inner

/-- A frozen buffer keeps its cells, and if it decays only blanks are left. -/
theorem Graded.step (hs : h.Sound) (hstep : op.Step h h') (ha : h.Advances h')
    (hg : h.Graded c) : h'.Graded c := by
  constructor
  · exact hg.rank
  · exact fun id hid => step_issued hs (hg.issued id hid) hstep ha
  · intro id b' hid hb'
    cases hb : h.buffer? id with
    | none =>
      rw [step_gone hs (hg.issued id hid) hb hstep] at hb'
      cases hb'
    | some b =>
      obtain ⟨hz, hlow⟩ := hg.inner id b hid hb
      have hfate := step_fate hs hb hstep
      rw [hb'] at hfate
      refine ⟨hfate.frozen_mono hz, ?_⟩
      cases hfate with
      | same => exact hlow
      | edited _ _ hnot =>
        rw [hz] at hnot
        cases hnot
      | managed => exact hlow
      | frozen => exact hlow
      | decayed =>
        intro d hd
        rw [Contents.blank_of_mem_empty hd]
        exact hg.rank (Cell.isCompound_of_inner? hid)

end Heap

theorem Cell.isCompound_of_rune? {s : String} {c : Cell} (hc : Cell.rune? s = some c) :
    c.isCompound = false := by
  obtain ⟨b, _, rfl⟩ := Option.map_eq_some_iff.1 hc
  rfl

theorem Cell.Primitive.isCompound {c : Cell} (hc : c.Primitive) : c.isCompound = false := by
  cases hc with
  | rune hc => exact isCompound_of_rune? hc
  | runeChar ch =>
    unfold Cell.runeChar
    cases hr : rune? (String.singleton ch) with
    | some d => exact isCompound_of_rune? hr
    | none => rfl
  | _ => rfl

namespace Heap

variable {h h' : Heap} {c d : Cell} {op : Operation}

/-- A frozen buffer that has just been allocated for the cells inside. -/
theorem graded_of_allocated {x : Contents} {id : BufferId} (hs : h.Sound)
    (ha : allocateFrozen x h = .ok id h') (hid : ∀ j, c.inner? = some j → j = id)
    (hr : 1 < c.kind.rank) (hlow : ∀ d ∈ x.stored, d.kind.rank < c.kind.rank) :
    h'.Graded c := by
  obtain ⟨_, _, b, ha', _, _, hread, hx, hz, _⟩ := allocateFrozen_apply hs x
  rw [ha] at ha'
  cases ha'
  have hb := buffer?_of_read hread
  constructor
  · exact fun _ => hr
  · intro j hj
    rw [hid j hj]
    exact issued_of_buffer? hb
  · intro j b' hj hb'
    rw [hid j hj, hb] at hb'
    cases hb'
    refine ⟨hz, ?_⟩
    rw [Buffer.stored, hx]
    exact hlow

theorem graded_of_sequence {k : Kind} {es : List Cell} {m : Compression} {s : Storage}
    (hs : h.Sound) (hv : Sequence.validate h k es = .ok ())
    (hx : Sequence.store m es h = .ok s h') : h'.Graded (.bare k (.sequence s)) := by
  obtain ⟨hk, _, hes⟩ := Sequence.validate_eq_ok hv
  have hrank := Kind.one_lt_rank hk
  have hlow : ∀ e ∈ es, e.kind.rank < k.rank := by
    intro e he
    obtain ⟨j, hj⟩ := hes e he
    exact Sequence.rank_lt_of_objection? hk hj
  rcases Sequence.store_apply m es h with ⟨s', hi, hst⟩ | ⟨a, b, rfl, hst⟩ | hst
  · rw [hst] at hx
    cases hx
    have hnone : ∀ id, (Cell.bare k (.sequence s)).inner? ≠ some id := by
      intro id hid
      have hmem := Cell.mem_references_of_inner? hid
      rw [Sequence.references_of_inlineStorage? hi] at hmem
      cases hmem
    exact ⟨fun _ => hrank, fun id hid => absurd hid (hnone id),
      fun id _ hid => absurd hid (hnone id)⟩
  · rw [hst] at hx
    obtain ⟨id, ha, rfl⟩ := of_map hx
    exact graded_of_allocated hs ha (fun j hj => by cases hj; rfl) hrank hlow
  · rw [hst] at hx
    obtain ⟨id, ha, rfl⟩ := of_map hx
    exact graded_of_allocated hs ha (fun j hj => by cases hj; rfl) hrank hlow

theorem graded_of_pair {x y : Cell} {id : BufferId} (hs : h.Sound)
    (hx : Pair.checkNumber x = .ok ()) (hy : Pair.checkNumber y = .ok ())
    (ha : allocateFrozen (.pairing x y) h = .ok id h') :
    h'.Graded (.bare .pair (.pairing id)) := by
  have hnumber : ∀ e, Pair.checkNumber e = .ok () → e.kind.rank < Kind.pair.rank := by
    intro e he
    have hn : e.kind.isNumber = true := (Pair.checkNumber_eq_ok he).2
    revert hn
    cases e.kind <;> decide
  apply graded_of_allocated hs ha (fun j hj => by cases hj; rfl) (show 1 < Kind.pair.rank by decide)
  intro d hd
  rcases List.mem_pair.1 hd with rfl | rfl
  · exact hnumber _ hx
  · exact hnumber _ hy

theorem graded_of_made (hs : h.Sound) (hc : op.Makes h h' c) : h'.Graded c := by
  cases hc with
  | sequence hv hx => exact graded_of_sequence hs hv hx
  | pair hx hy ha => exact graded_of_pair hs hx hy ha
  | rune hc => exact graded_of_simple (Cell.isCompound_of_rune? hc)
  | _ => exact graded_of_simple rfl

theorem graded_of_primitive (hc : c.Primitive) : h.Graded c := graded_of_simple hc.isCompound

/-- Every cell of a forward session is graded, whatever kinds the constructors were given. -/
theorem graded_invariant {admits : Heap → Operation → Prop} (hf : Session.Forward admits) :
    Session.Invariant admits Graded := by
  refine Session.invariant_of_rehead ?_ Graded.rehead graded_of_primitive ?_ ?_ ?_
  · exact fun hs hstep ha hg => hg.step hs hstep (ha hf)
  · exact fun id i j _ _ => graded_of_simple rfl
  · exact fun v l l' _ _ => graded_of_simple rfl
  · exact fun _ hs _ _ hc => graded_of_made hs hc

theorem graded_of_within (hst : h.Stores Graded) (hw : h.Within c d) : h.Graded d :=
  Session.of_within Graded.rehead graded_of_primitive hst hw

end Heap

end CellHeap
