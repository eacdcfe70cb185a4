import CellHeap.Operation
import CellHeap.Proofs.Heap.Arena
import CellHeap.Proofs.Render.Locality
import Mathlib.Data.Set.Card

/-!
# What a sweep takes and what it leaves

A sweep releases the managed buffers that are not marked and touches no other
slot. If the marks are closed under the references of readable contents, then
nothing that is read or rendered through a cell whose buffers are marked can tell
that a sweep took place.
-/

set_option autoImplicit false

namespace CellHeap.Heap

variable {h : Heap} {marked : BufferId → Bool} {id : BufferId}

def Doomed (h : Heap) (marked : BufferId → Bool) (id : BufferId) : Prop :=
  ∃ b, h.buffer? id = some b ∧ b.managed = true ∧ marked id = false

def doomed (h : Heap) (marked : BufferId → Bool) : List BufferId :=
  h.ids.filter fun id => h.isManaged id && !marked id

theorem mem_doomed : id ∈ h.doomed marked ↔ h.Doomed marked id := by
  simp only [doomed, List.mem_filter, Bool.and_eq_true, Bool.not_eq_true', isManaged_iff]
  constructor
  · intro hd
    obtain ⟨_, ⟨b, hb, hm⟩, hu⟩ := hd
    exact ⟨b, hb, hm, hu⟩
  · intro hd
    obtain ⟨b, hb, hm, hu⟩ := hd
    exact ⟨mem_ids hb, ⟨b, hb, hm⟩, hu⟩

theorem nodup_doomed (h : Heap) (marked : BufferId → Bool) : (h.doomed marked).Nodup :=
  h.nodup_ids.filter _

theorem ncard_doomed (h : Heap) (marked : BufferId → Bool) :
    {id | h.Doomed marked id}.ncard = (h.doomed marked).length := by
  classical
  have hset : {id | h.Doomed marked id} = ↑(h.doomed marked).toFinset := by
    ext id
    simp [mem_doomed]
  rw [hset, Set.ncard_coe_finset, List.toFinset_card_of_nodup (h.nodup_doomed marked)]

theorem frame_vacates (gone : List BufferId) (h : Heap) :
    (gone.foldl vacate h).slots.size = h.slots.size ∧
      (gone.foldl vacate h).symbols = h.symbols := by
  induction gone generalizing h with
  | nil => exact ⟨rfl, rfl⟩
  | cons id gone ih =>
    have hv := ih (h.vacate id)
    simp only [vacate, Array.size_modify] at hv
    exact hv

def swept (h : Heap) (marked : BufferId → Bool) : Heap := (h.doomed marked).foldl vacate h

theorem sweep_apply (h : Heap) (marked : BufferId → Bool) :
    sweep marked h = .ok (h.doomed marked).length (h.swept marked) := rfl

theorem count_of_sweep {n : Nat} {h' : Heap} (hs : sweep marked h = .ok n h') :
    n = (h.doomed marked).length := by
  rw [sweep_apply] at hs
  cases hs
  rfl

theorem buffer?_swept (h : Heap) (marked : BufferId → Bool) (j : BufferId) :
    (h.swept marked).buffer? j = if j ∈ h.doomed marked then none else h.buffer? j := by
  apply buffer?_vacates _ h (h.nodup_doomed marked)
  intro id hid
  obtain ⟨b, hb, _, _⟩ := mem_doomed.1 hid
  exact ⟨b, hb⟩

theorem buffer?_swept_eq_some {b : Buffer} : (h.swept marked).buffer? id = some b ↔
    h.buffer? id = some b ∧ ¬ h.Doomed marked id := by
  rw [buffer?_swept, ← mem_doomed]
  by_cases hd : id ∈ h.doomed marked <;> simp [hd]

theorem read_swept (hm : marked id = true) : (h.swept marked).read id = h.read id := by
  have hnot : id ∉ h.doomed marked := by
    intro hd
    obtain ⟨_, _, _, hu⟩ := mem_doomed.1 hd
    rw [hm] at hu
    cases hu
  simp only [read, buffer?_swept, hnot, if_false]

def ClosedMarks (h : Heap) (marked : BufferId → Bool) : Prop :=
  ∀ id js, marked id = true → h.children id = .ok js → ∀ j ∈ js, marked j = true

theorem agree_swept (hc : h.ClosedMarks marked) :
    h.Agree (marked · = true) (fun _ => True) (h.swept marked) := by
  constructor
  · intro id hm
    exact sight_of_read (read_swept hm)
  · intro id b hm hr j hj
    have hch : h.children id = .ok b.references := by simp [children, hr]
    exact hc id _ hm hch j hj
  · intro s _
    simp only [spelling, swept, (frame_vacates (h.doomed marked) h).2]
  · exact fun _ _ _ _ _ _ => trivial

structure ReadsAlike (h h' : Heap) (c : Cell) : Prop where
  mold : Render.mold h' c = Render.mold h c
  lengthAt : Series.lengthAt h' c = Series.lengthAt h c
  rest : Series.rest h' c = Series.rest h c
  item : ∀ offset, Series.elementAt h' c offset = Series.elementAt h c offset
  textAt : Series.textAt h' c = Series.textAt h c
  text : Strings.text h' c = Strings.text h c
  bytesAt : Series.bytesAt h' c = Series.bytesAt h c
  cellsAt : Series.cellsAt h' c = Series.cellsAt h c
  elements : Sequence.elements h' c = Sequence.elements h c
  element : ∀ i, Sequence.elementAt h' c i = Sequence.elementAt h c i
  blankSide : Sequence.blankSide h' c = Sequence.blankSide h c
  isRefinement : Sequence.isRefinement h' c = Sequence.isRefinement h c
  keys : Context.keys h' c = Context.keys h c
  read : ∀ key, Context.read h' c key = Context.read h c key
  readMeta : ∀ key, Context.readMeta h' c key = Context.readMeta h c key
  pairs : Map.pairs h' c = Map.pairs h c
  parts : Pair.parts h' c = Pair.parts h c
  label : Frame.label h' c = Frame.label h c
  spec : Parameter.spec h' c = Parameter.spec h c

theorem readsAlike_swept {c : Cell} (hc : h.ClosedMarks marked)
    (hm : ∀ id ∈ c.references, marked id = true) : h.ReadsAlike (h.swept marked) c := by
  have ha := agree_swept hc
  have hv := ha.sameView hm
  have hdepth : Render.depthBound (h.swept marked) = Render.depthBound h := by
    simp only [Render.depthBound, swept, (frame_vacates (h.doomed marked) h).1]
  have hmold : Render.mold (h.swept marked) c = Render.mold h c := by
    simp only [Render.mold, Render.render, hdepth, ha.upTo _ [] fun _ => ⟨hm, fun _ _ => trivial⟩]
  exact {
    mold := hmold
    lengthAt := Series.lengthAt_congr hv
    rest := Series.rest_congr hv
    item := Series.elementAt_congr hv
    textAt := Series.textAt_congr hv
    text := Strings.text_congr hv
    bytesAt := Series.bytesAt_congr hv
    cellsAt := Series.cellsAt_congr hv
    elements := Sequence.elements_congr hv
    element := Sequence.elementAt_congr hv
    blankSide := Sequence.blankSide_congr hv
    isRefinement := Sequence.isRefinement_congr hv
    keys := Context.keys_congr hv
    read := Context.read_congr hv
    readMeta := Context.readMeta_congr hv
    pairs := Map.pairs_congr hv
    parts := Pair.parts_congr hv
    label := Frame.label_congr hv
    spec := Parameter.spec_congr hv }

/-- A sweep releases exactly the managed buffers without a mark and counts them, leaves every
other slot alone, and with closed marks no reader of a marked cell sees a difference. -/
theorem sweep_exact_safe (h : Heap) (marked : BufferId → Bool) (hc : h.ClosedMarks marked) :
    ∃ n h', sweep marked h = .ok n h' ∧
      n = {id | h.Doomed marked id}.ncard ∧
      (∀ id b, h'.buffer? id = some b ↔ h.buffer? id = some b ∧ ¬ h.Doomed marked id) ∧
      (∀ i, (∀ id, h.Doomed marked id → id.index ≠ i) → h'.slots[i]? = h.slots[i]?) ∧
      h'.slots.size = h.slots.size ∧ h'.symbols = h.symbols ∧
      ∀ c, (∀ id ∈ c.references, marked id = true) → h.ReadsAlike h' c := by
  refine ⟨_, _, sweep_apply h marked, (ncard_doomed h marked).symm, ?_, ?_, ?_, ?_, ?_⟩
  · intro id b
    exact buffer?_swept_eq_some
  · intro i hi
    exact slots_vacates _ h fun id hid => hi id (mem_doomed.1 hid)
  · exact (frame_vacates _ h).1
  · exact (frame_vacates _ h).2
  · intro c hm
    exact readsAlike_swept hc hm

/-- A list that holds itself is kept, and a list that holds it is swept. -/
theorem sweep_exact_safe_cycle :
    let self := Cell.bare .block (.series ⟨0, 0⟩ 0)
    let h := (Heap.new {}).run
      [.makeList .block [.integer 1], .makeList .group [self], .appendCells self [self]]
    let marked : BufferId → Bool := (· == ⟨0, 0⟩)
    h.ClosedMarks marked ∧ h.children ⟨0, 0⟩ = .ok [⟨0, 0⟩] ∧
      ∃ h', sweep marked h = .ok 1 h' ∧ h'.buffer? ⟨1, 0⟩ = none ∧
        Render.mold h' self = Render.mold h self := by
  intro self h marked
  have hchildren : h.children ⟨0, 0⟩ = .ok [⟨0, 0⟩] := by decide
  have hc : h.ClosedMarks marked := by
    intro id js hm hr j hj
    have hid : id = ⟨0, 0⟩ := by simpa [marked] using hm
    subst hid
    rw [hchildren] at hr
    cases hr
    simpa [marked] using hj
  obtain ⟨n, h', hs, _, hb, _, _, _, hread⟩ := sweep_exact_safe h marked hc
  have hn : n = 1 := (count_of_sweep hs).trans (by decide)
  have hgone : h'.buffer? ⟨1, 0⟩ = none := by
    cases hb' : h'.buffer? ⟨1, 0⟩ with
    | none => rfl
    | some b =>
      obtain ⟨_, hnot⟩ := (hb _ b).1 hb'
      have hm : h.isManaged ⟨1, 0⟩ = true := by decide
      obtain ⟨b₁, hb₁, hbm⟩ := isManaged_iff.1 hm
      exact absurd ⟨b₁, hb₁, hbm, by decide⟩ hnot
  subst hn
  exact ⟨hc, hchildren, h', hs, hgone, (hread self (by decide)).mold⟩

end CellHeap.Heap
