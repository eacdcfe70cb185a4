import CellHeap.Proofs.Heap.Lifetime

/-!
# The inventory of a heap

The slots, the free stack, the handles present and the counts are several records
of one thing. In every state that a run can come to they agree: the free stack
lists the vacant slots and nothing else, so the size is the number of buffers
present, and each handle present finds the buffer of its slot. The marks of a
buffer agree with its state of life as well, and its kind of elements is settled
when it is made.
-/

set_option autoImplicit false

namespace CellHeap

def Contents.Released : Contents → Prop
  | .bytes bs => bs = []
  | .text s => s = ""
  | .cells cs => cs = []
  | .pairing x y => x = .blank ∧ y = .blank

theorem Contents.released_empty (k : ElementKind) : (empty k).Released := by
  cases k with
  | pairing => exact ⟨rfl, rfl⟩
  | _ => rfl

structure Buffer.Regular (b : Buffer) : Prop where
  managed : b.liveness = .managed → b.managed = true
  unmanaged : b.liveness = .unmanaged → b.managed = false
  decayed : b.liveness = .decayed → b.contents.Released ∧ b.keylist = none
  pairing : b.elementKind = .pairing → b.fixedSize = true ∧ ∃ x y, b.cells = .ok [x, y]

namespace Buffer

variable {b : Buffer}

theorem Formed.pairing (hf : b.Formed) (hk : b.elementKind = .pairing) :
    b.fixedSize = true ∧ ∃ x y, b.cells = .ok [x, y] := by
  constructor
  · rw [hf.fixedSize, hk]
    rfl
  · unfold elementKind at hk
    unfold cells
    cases hc : b.contents with
    | pairing x y => exact ⟨x, y, rfl⟩
    | bytes | text | cells =>
      rw [hc] at hk
      cases hk

/-- A buffer as operations place it. -/
theorem Formed.regular (hf : b.Formed)
    (hl : b.liveness = if b.managed then .managed else .unmanaged) : b.Regular := by
  refine ⟨fun h => ?_, fun h => ?_, fun h => ?_, hf.pairing⟩
  all_goals
    rw [hl] at h
    cases hm : b.managed <;> simp [hm] at h
  · rfl
  · rfl

end Buffer

namespace Fate

variable {op : Operation} {id : BufferId} {b b' : Buffer}

theorem elementKind (hf : Fate op id b (some b')) : b'.elementKind = b.elementKind := by
  cases hf with
  | edited _ _ _ he => exact he.elementKind
  | decayed => exact Contents.elementKind_empty _
  | _ => rfl

theorem formed (hf : Fate op id b (some b')) (hb : b.Formed) : b'.Formed := by
  refine ⟨?_, fun hk => ?_⟩
  · rw [hf.fixedSize, hf.elementKind, hb.fixedSize]
  · rw [hf.elementKind]
    apply hb.keyed
    cases hf with
    | edited _ _ _ he =>
      rw [he.frame] at hk
      exact hk
    | decayed => cases hk
    | _ => exact hk

/-- No step brings the marks of a buffer out of line: only a readable buffer is changed, and one
that decays loses its contents and its keys at once. -/
theorem regular (hf : Fate op id b (some b')) (hb : b.Formed) (hr : b.Regular) : b'.Regular := by
  have hpairing := (hf.formed hb).pairing
  cases hf with
  | same => exact hr
  | edited _ hl _ he =>
    have hlive : b'.liveness = b.liveness := by rw [he.frame]
    have hmanaged : b'.managed = b.managed := by rw [he.frame]
    refine ⟨fun h => ?_, fun h => ?_, fun h => absurd (hlive ▸ h) hl, hpairing⟩
    · rw [hmanaged]
      exact hr.managed (hlive ▸ h)
    · rw [hmanaged]
      exact hr.unmanaged (hlive ▸ h)
  | managed => exact ⟨fun _ => rfl, Liveness.noConfusion, Liveness.noConfusion, hpairing⟩
  | frozen hl => exact ⟨hr.managed, hr.unmanaged, fun h => absurd h hl, hpairing⟩
  | decayed =>
    have hreleased := Contents.released_empty b.elementKind
    exact ⟨Liveness.noConfusion, Liveness.noConfusion, fun _ => ⟨hreleased, rfl⟩, hpairing⟩

end Fate

namespace Heap

variable {h h' : Heap} {id : BufferId} {b b' : Buffer} {op : Operation}

/-- What holds of buffers as they are placed, and is kept by every fate, holds of all buffers
that are present in the course of a run. -/
theorem run_buffers {P : Buffer → Prop}
    (hnew : ∀ b, b.Formed → (b.liveness = if b.managed then .managed else .unmanaged) → P b)
    (hfate : ∀ op id b b', Fate op id b (some b') → P b → P b')
    (config : Config) (ops : List Operation) (id : BufferId) (b : Buffer)
    (hb : ((Heap.new config).run ops).buffer? id = some b) : P b := by
  have hall := run_induction (fun h => h.Sound ∧ ∀ id b, h.buffer? id = some b → P b) ops
    ⟨sound_new config, fun _ _ hx => by cases hx⟩ (by
      rintro op h h' ⟨hs, hp⟩ hstep
      refine ⟨step_sound hs hstep, fun id b' hb' => ?_⟩
      rcases step_origin hs hstep hb' with ⟨b, hb, hf⟩ | hplaced
      · exact hfate op id b b' hf (hp id b hb)
      · exact hnew b' hplaced.formed hplaced.liveness)
  exact hall.2 id b hb

theorem formed_of_run (config : Config) (ops : List Operation)
    (hb : ((Heap.new config).run ops).buffer? id = some b) : b.Formed :=
  run_buffers (fun _ hf _ => hf) (fun _ _ _ _ hfate hf => hfate.formed hf) config ops id b hb

theorem regular_of_run (config : Config) (ops : List Operation)
    (hb : ((Heap.new config).run ops).buffer? id = some b) : b.Regular := by
  have hboth : b.Formed ∧ b.Regular := by
    apply run_buffers _ _ config ops id b hb
    · exact fun b hf hl => ⟨hf, hf.regular hl⟩
    · rintro op id b b' hfate ⟨hf, hr⟩
      exact ⟨hfate.formed hf, hfate.regular hf hr⟩
  exact hboth.2

theorem run_elementKind (ops : List Operation) (hops : h.Throughout (Operation.Retains id) ops)
    (hs : h.Sound) (hb : h.buffer? id = some b) (hb' : (h.run ops).buffer? id = some b') :
    b'.elementKind = b.elementKind :=
  run_keeps (P := fun c => c.elementKind = b.elementKind)
    (fun _ _ _ hf hc => hf.elementKind.trans hc) ops hops hs hb rfl hb'

theorem mem_ids_iff : id ∈ h.ids ↔ ∃ b, h.buffer? id = some b := by
  refine ⟨fun hid => ?_, fun ⟨_, hb⟩ => mem_ids hb⟩
  obtain ⟨p, hp, hid⟩ := List.mem_filterMap.1 hid
  obtain ⟨b, hb, rfl⟩ := Option.map_eq_some_iff.1 hid
  have hslot : h.slots[p.2]? = some p.1 := by
    simpa using List.mem_zipIdx_iff_getElem?.1 hp
  exact ⟨b, buffer?_eq_some_iff.2 (by rw [hslot, ← hb])⟩

/-- The handles present and the buffers present are listed in the same order. -/
theorem map_buffer?_ids (h : Heap) : h.ids.map h.buffer? = h.buffers.map some := by
  have hfst : h.slots.toList.zipIdx.map (·.1) = h.slots.toList := List.zipIdx_map_fst 0 _
  have hbuffers : h.buffers.map some =
      h.slots.toList.zipIdx.filterMap fun p => p.1.buffer.map some := by
    unfold buffers
    conv_lhs => rw [← hfst]
    rw [List.filterMap_map, List.map_filterMap]
    rfl
  rw [hbuffers, ids, List.map_filterMap]
  apply List.filterMap_congr
  rintro ⟨⟨g, o⟩, i⟩ hp
  have hslot : h.slots[i]? = some ⟨g, o⟩ := by
    simpa using List.mem_zipIdx_iff_getElem?.1 hp
  cases o with
  | none => rfl
  | some b =>
    have hfound : h.buffer? ⟨i, g⟩ = some b := buffer?_eq_some_iff.2 hslot
    simp [hfound]

theorem length_ids (h : Heap) : h.ids.length = h.buffers.length := by
  have hmap := congrArg List.length h.map_buffer?_ids
  rwa [List.length_map, List.length_map] at hmap

def vacancies (h : Heap) : List Nat :=
  (h.slots.toList.zipIdx.filter (·.1.buffer.isNone)).map (·.2)

theorem mem_vacancies {i : Nat} : i ∈ h.vacancies ↔ ∃ g, h.slots[i]? = some ⟨g, none⟩ := by
  simp only [vacancies, List.mem_map, List.mem_filter, List.mem_zipIdx_iff_getElem?]
  constructor
  · rintro ⟨⟨⟨g, o⟩, j⟩, ⟨hslot, hnone⟩, rfl⟩
    cases o with
    | none => exact ⟨g, by simpa using hslot⟩
    | some b => cases hnone
  · rintro ⟨g, hslot⟩
    exact ⟨(⟨g, none⟩, i), ⟨by simpa using hslot, rfl⟩, rfl⟩

theorem nodup_vacancies (h : Heap) : h.vacancies.Nodup :=
  (List.nodup_zipIdx_map_snd h.slots.toList).sublist (List.filter_sublist.map _)

/-- A slot is vacant or holds a buffer. -/
theorem length_vacancies (h : Heap) : h.vacancies.length + h.buffers.length = h.slots.size := by
  have hvacant : h.vacancies.length = h.slots.toList.countP (·.buffer.isNone) := by
    rw [vacancies, List.length_map, ← List.countP_eq_length_filter]
    conv_rhs => rw [← List.zipIdx_map_fst 0 h.slots.toList, List.countP_map]
    rfl
  have htaken : h.buffers.length = h.slots.toList.countP (·.buffer.isSome) := by
    rw [buffers, List.length_filterMap_eq_countP]
  have hboth := List.length_eq_countP_add_countP (fun s : Slot => s.buffer.isSome)
    (l := h.slots.toList)
  have hneg : (fun s : Slot => decide (¬ s.buffer.isSome = true)) = (·.buffer.isNone) := by
    ext ⟨g, o⟩
    cases o <;> simp
  rw [Array.length_toList, hneg] at hboth
  omega

theorem Sound.perm_vacancies (hs : h.Sound) : h.free.Perm h.vacancies := by
  rw [List.perm_ext_iff_of_nodup hs.nodup h.nodup_vacancies]
  intro i
  rw [hs.mem_free, mem_vacancies]

theorem Sound.length_free (hs : h.Sound) : h.free.length + h.buffers.length = h.slots.size := by
  rw [hs.perm_vacancies.length_eq, length_vacancies]

theorem Sound.size_eq (hs : h.Sound) : h.size = h.buffers.length := by
  have hlength := hs.length_free
  unfold size
  omega

/-- The records of a heap agree after every run from a new one: the free stack holds every vacant
slot once and nothing else, the size counts the buffers present, each handle present finds its own
buffer and no handle is listed twice, every buffer has marks that agree with each other, and a
buffer keeps its kind of elements for as long as it is present. -/
theorem inventory_consistent (config : Config) (ops : List Operation) :
    let h := (Heap.new config).run ops
    h.free.Nodup ∧ (∀ i, i ∈ h.free ↔ ∃ g, h.slots[i]? = some ⟨g, none⟩) ∧
    h.free.length ≤ h.slots.size ∧ h.size = h.stats.live ∧ h.size = h.ids.length ∧
    (∀ id, id ∈ h.ids ↔ ∃ b, h.buffer? id = some b) ∧
    h.ids.map h.buffer? = h.buffers.map some ∧ h.ids.Nodup ∧
    (∀ id b, h.buffer? id = some b → b.Regular) ∧
    ∀ id b rest b', h.buffer? id = some b → h.Throughout (Operation.Retains id) rest →
      (h.run rest).buffer? id = some b' → b'.elementKind = b.elementKind := by
  intro h
  have hs : h.Sound := reachable_sound config ops
  refine ⟨hs.nodup, hs.mem_free, ?_, hs.size_eq, ?_, fun id => mem_ids_iff, h.map_buffer?_ids,
    h.nodup_ids, fun id b => regular_of_run config ops,
    fun id b rest b' hb hrest => run_elementKind rest hrest hs hb⟩
  · have hlength := hs.length_free
    omega
  · rw [hs.size_eq, length_ids]

/-- A slot that was released holds a pairing, which decays beside a blob. -/
theorem inventory_consistent_reused :
    let h := (Heap.new {}).run
      [.allocate .text 0, .release ⟨0, 0⟩, .allocate .pairing 0, .decay ⟨0, 1⟩, .makeBlob [7],
        .allocate .bytes 0, .release ⟨2, 0⟩]
    h.free = [2] ∧ h.size = 2 ∧ h.ids.length = 2 ∧
      ∃ b, h.buffer? ⟨0, 1⟩ = some b ∧ b.liveness = .decayed ∧ b.contents.Released ∧
        b.keylist = none ∧ b.fixedSize = true ∧
        ∀ rest b', h.Throughout (Operation.Retains ⟨0, 1⟩) rest →
          (h.run rest).buffer? ⟨0, 1⟩ = some b' → b'.elementKind = .pairing := by
  intro h
  obtain ⟨_, _, _, _, hids, _, _, _, hregular, hkind⟩ := inventory_consistent {}
    [.allocate .text 0, .release ⟨0, 0⟩, .allocate .pairing 0, .decay ⟨0, 1⟩, .makeBlob [7],
      .allocate .bytes 0, .release ⟨2, 0⟩]
  have hsize : h.size = 2 := by decide
  obtain ⟨b, hb⟩ : ∃ b, h.buffer? ⟨0, 1⟩ = some b := ⟨_, rfl⟩
  have hdecayed : ∀ b ∈ h.buffer? ⟨0, 1⟩, b.liveness = .decayed ∧ b.elementKind = .pairing := by
    decide
  obtain ⟨hl, hp⟩ := hdecayed b hb
  obtain ⟨hreleased, hkeys⟩ := (hregular _ b hb).decayed hl
  refine ⟨by decide, hsize, hids ▸ hsize, b, hb, hl, hreleased, hkeys,
    ((hregular _ b hb).pairing hp).1, fun rest b' hrest hb' => ?_⟩
  rw [hkind _ b rest b' hb hrest hb', hp]

end Heap

end CellHeap
