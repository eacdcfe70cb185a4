import CellHeap.Heap.Reach
import CellHeap.Proofs.Outcome
import Mathlib.Data.List.Sigma

/-!
# Slots and handles

What a look-up gives after a buffer is placed, replaced or released. A handle
is issued once its slot has held a buffer under its generation, until the
generations of the slot come round; the handle that a placement gives back is not
issued. These facts need the free stack to hold the empty slots and nothing else,
which every step keeps.
-/

set_option autoImplicit false

namespace CellHeap

theorem BufferId.eq_of_parts {a b : BufferId} (hi : a.index = b.index)
    (hg : a.generation = b.generation) : a = b := by
  cases a
  cases b
  cases hi
  cases hg
  rfl

namespace Heap

structure Sound (h : Heap) : Prop where
  nodup : h.free.Nodup
  mem_free : ∀ i, i ∈ h.free ↔ ∃ g, h.slots[i]? = some ⟨g, none⟩

/-- The slot holds a buffer under this handle, or is past it. -/
def Issued (h : Heap) (id : BufferId) : Prop :=
  ∃ s, h.slots[id.index]? = some s ∧
    (id.generation < s.generation ∨ id.generation = s.generation ∧ s.buffer.isSome)

theorem buffer?_eq_some_iff {h : Heap} {id : BufferId} {b : Buffer} :
    h.buffer? id = some b ↔ h.slots[id.index]? = some ⟨id.generation, some b⟩ := by
  simp only [buffer?, Option.bind_eq_bind, Option.bind_eq_some_iff]
  constructor
  · rintro ⟨⟨g, o⟩, hs, hg⟩
    split at hg
    · rename_i he
      cases he
      cases hg
      exact hs
    · cases hg
  · intro hs
    exact ⟨_, hs, by simp⟩

theorem read_eq_ok_iff {h : Heap} {id : BufferId} {b : Buffer} :
    h.read id = .ok b ↔ h.buffer? id = some b ∧ b.liveness ≠ .decayed := by
  simp only [read]
  cases hb : h.buffer? id with
  | none => simp
  | some b' =>
    by_cases hl : b'.liveness = .decayed
    · simp only [hl, if_true, reduceCtorEq, Option.some.injEq, false_iff, not_and, not_not]
      rintro rfl
      exact hl
    · simp only [hl, if_false, Except.ok.injEq, Option.some.injEq]
      constructor
      · rintro rfl
        exact ⟨rfl, hl⟩
      · exact And.left

theorem read_eq_error {h : Heap} {id : BufferId} {e : Fault} (hr : h.read id = .error e) :
    e = .dataFreed id := by
  simp only [read] at hr
  split at hr
  · split at hr <;> cases hr
    rfl
  · cases hr
    rfl

theorem isReadable_iff {h : Heap} {id : BufferId} :
    h.isReadable id = true ↔ ∃ b, h.read id = .ok b := by
  simp only [isReadable]
  cases h.read id <;> simp [Except.isOk, Except.toBool]

theorem read_of_not_readable {h : Heap} {id : BufferId} (hr : ¬ h.isReadable id = true) :
    h.read id = .error (.dataFreed id) := by
  cases he : h.read id with
  | ok b => exact absurd (isReadable_iff.2 ⟨b, he⟩) hr
  | error e => rw [read_eq_error he]

theorem writable_eq_ok_iff {h : Heap} {id : BufferId} {b : Buffer} :
    h.writable id = .ok b ↔ h.read id = .ok b ∧ b.frozen = false := by
  simp only [writable, bind_eq_ok_iff]
  constructor
  · rintro ⟨b', hr, hb⟩
    cases hf : b'.frozen <;> simp [hf] at hb
    subst hb
    exact ⟨hr, hf⟩
  · rintro ⟨hr, hf⟩
    exact ⟨b, hr, by simp [hf]⟩

theorem isManaged_iff {h : Heap} {id : BufferId} :
    h.isManaged id = true ↔ ∃ b, h.buffer? id = some b ∧ b.managed = true := by
  simp only [isManaged]
  cases h.buffer? id <;> simp

/-- No two buffers present share a slot. -/
theorem pairwise_ids (h : Heap) : h.ids.Pairwise (·.index ≠ ·.index) := by
  have hp : h.slots.toList.zipIdx.Pairwise (·.2 ≠ ·.2) :=
    List.pairwise_map.1 (List.nodup_zipIdx_map_snd h.slots.toList)
  refine hp.filterMap _ ?_
  rintro ⟨s, i⟩ ⟨t, j⟩ hij a ha b hb
  obtain ⟨_, _, rfl⟩ := Option.map_eq_some_iff.1 ha
  obtain ⟨_, _, rfl⟩ := Option.map_eq_some_iff.1 hb
  exact hij

theorem nodup_ids (h : Heap) : h.ids.Nodup :=
  h.pairwise_ids.imp fun hij he => hij (by rw [he])

theorem length_ids_le (h : Heap) : h.ids.length ≤ h.slots.size := by
  simpa [ids] using List.length_filterMap_le
    (fun (p : Slot × Nat) => p.1.buffer.map fun _ => (⟨p.2, p.1.generation⟩ : BufferId))
    h.slots.toList.zipIdx

theorem issued_of_buffer? {h : Heap} {id : BufferId} {b : Buffer} (hb : h.buffer? id = some b) :
    h.Issued id :=
  ⟨_, buffer?_eq_some_iff.1 hb, Or.inr ⟨rfl, rfl⟩⟩

theorem slots_setBuffer (h : Heap) (id : BufferId) (b : Buffer) (i : Nat) :
    (h.setBuffer id b).slots[i]? =
      if id.index = i then h.slots[i]?.map fun s => ⟨s.generation, some b⟩ else h.slots[i]? := by
  simp [setBuffer, Array.getElem?_modify]

theorem slots_vacate (h : Heap) (id : BufferId) (i : Nat) :
    (h.vacate id).slots[i]? =
      if id.index = i then h.slots[i]?.map fun s => ⟨s.generation + 1, none⟩ else h.slots[i]? := by
  simp [vacate, Array.getElem?_modify]

/-- A placement fills one slot that was empty or did not exist. -/
theorem slots_place {h : Heap} (hs : h.Sound) (b : Buffer) :
    (∀ i, (h.place b).2.slots[i]? =
      if i = (h.place b).1.index then some ⟨(h.place b).1.generation, some b⟩
      else h.slots[i]?) ∧
    (h.slots[(h.place b).1.index]? = none ∧ (h.place b).1.generation = 0 ∨
      h.slots[(h.place b).1.index]? = some ⟨(h.place b).1.generation, none⟩) := by
  cases hf : h.free with
  | nil =>
    simp only [place, hf]
    refine ⟨fun i => ?_, Or.inl ⟨by simp, trivial⟩⟩
    rw [Array.getElem?_push]
  | cons j rest =>
    obtain ⟨g, hg⟩ := (hs.mem_free j).1 (by simp [hf])
    simp only [place, hf, hg, Option.map_some, Option.getD_some]
    refine ⟨fun i => ?_, Or.inr trivial⟩
    rw [Array.getElem?_modify]
    by_cases hij : j = i
    · subst hij
      simp [hg]
    · simp [hij, Ne.symm hij]

theorem buffer?_setBuffer {h : Heap} {id : BufferId} {b : Buffer} (hb : h.buffer? id = some b)
    (b' : Buffer) (j : BufferId) :
    (h.setBuffer id b').buffer? j = if j = id then some b' else h.buffer? j := by
  have hid := buffer?_eq_some_iff.1 hb
  ext c
  by_cases hj : j = id
  · subst hj
    rw [buffer?_eq_some_iff, slots_setBuffer, hid]
    simp
  · simp only [hj, if_false, buffer?_eq_some_iff, slots_setBuffer]
    by_cases hi : id.index = j.index
    · have hg : id.generation ≠ j.generation := fun hg =>
        hj (BufferId.eq_of_parts hi hg).symm
      simp [← hi, hid, hg]
    · simp [hi]

theorem buffer?_vacate {h : Heap} {id : BufferId} {b : Buffer} (hb : h.buffer? id = some b)
    (j : BufferId) : (h.vacate id).buffer? j = if j = id then none else h.buffer? j := by
  have hid := buffer?_eq_some_iff.1 hb
  ext c
  by_cases hj : j = id
  · subst hj
    simp [buffer?_eq_some_iff, slots_vacate, hid]
  · simp only [hj, if_false, buffer?_eq_some_iff, slots_vacate]
    by_cases hi : id.index = j.index
    · have hg : id.generation ≠ j.generation := fun hg =>
        hj (BufferId.eq_of_parts hi hg).symm
      simp [← hi, hid, hg]
    · simp [hi]

theorem buffer?_place {h : Heap} (hs : h.Sound) (b : Buffer) (j : BufferId) :
    (h.place b).2.buffer? j = if j = (h.place b).1 then some b else h.buffer? j := by
  obtain ⟨hp, hn⟩ := slots_place hs b
  ext c
  by_cases hj : j = (h.place b).1
  · rw [hj, buffer?_eq_some_iff, hp]
    simp
  · simp only [hj, if_false, buffer?_eq_some_iff, hp]
    by_cases hi : j.index = (h.place b).1.index
    · have hg : (h.place b).1.generation ≠ j.generation := fun hg =>
        hj (BufferId.eq_of_parts hi hg.symm)
      rw [if_pos hi, hi]
      rcases hn with ⟨hn, -⟩ | hn <;> simp [hn, hg]
    · rw [if_neg hi]

theorem of_buffer?_setBuffer {h : Heap} {id j : BufferId} {b b' x : Buffer}
    (hb : h.buffer? id = some b) (hx : (h.setBuffer id b').buffer? j = some x) :
    j = id ∧ x = b' ∨ h.buffer? j = some x := by
  rw [buffer?_setBuffer hb] at hx
  by_cases he : j = id
  · simp only [he, if_true, Option.some.injEq] at hx
    exact Or.inl ⟨he, hx.symm⟩
  · simp only [he, if_false] at hx
    exact Or.inr hx

theorem of_buffer?_vacate {h : Heap} {id j : BufferId} {b x : Buffer}
    (hb : h.buffer? id = some b) (hx : (h.vacate id).buffer? j = some x) :
    h.buffer? j = some x := by
  rw [buffer?_vacate hb] at hx
  by_cases he : j = id
  · simp [he] at hx
  · simpa only [he, if_false] using hx

theorem of_buffer?_place {h : Heap} {j : BufferId} {b x : Buffer} (hs : h.Sound)
    (hx : (h.place b).2.buffer? j = some x) :
    j = (h.place b).1 ∧ x = b ∨ h.buffer? j = some x := by
  rw [buffer?_place hs] at hx
  by_cases he : j = (h.place b).1
  · simp only [he, if_true, Option.some.injEq] at hx
    exact Or.inl ⟨he, hx.symm⟩
  · simp only [he, if_false] at hx
    exact Or.inr hx

theorem buffer?_vacates (gone : List BufferId) (h : Heap) (hn : gone.Nodup)
    (hg : ∀ id ∈ gone, ∃ b, h.buffer? id = some b) (j : BufferId) :
    (gone.foldl vacate h).buffer? j = if j ∈ gone then none else h.buffer? j := by
  induction gone generalizing h with
  | nil => simp
  | cons id gone ih =>
    obtain ⟨hid, hrest⟩ := List.nodup_cons.1 hn
    obtain ⟨b, hb⟩ := hg id (by simp)
    have hpresent : ∀ i ∈ gone, ∃ c, (h.vacate id).buffer? i = some c := by
      intro i hi
      obtain ⟨c, hc⟩ := hg i (by simp [hi])
      have hne : i ≠ id := fun he => hid (he ▸ hi)
      exact ⟨c, by simp [buffer?_vacate hb, hne, hc]⟩
    rw [List.foldl_cons, ih (h.vacate id) hrest hpresent, buffer?_vacate hb]
    by_cases hj : j = id <;> simp [hj]

theorem slots_vacates (gone : List BufferId) (h : Heap) {i : Nat}
    (hi : ∀ id ∈ gone, id.index ≠ i) : (gone.foldl vacate h).slots[i]? = h.slots[i]? := by
  induction gone generalizing h with
  | nil => rfl
  | cons id gone ih =>
    rw [List.foldl_cons, ih _ fun j hj => hi j (by simp [hj]), slots_vacate, if_neg (hi id (by simp))]

theorem symbols_place (h : Heap) (b : Buffer) : (h.place b).2.symbols = h.symbols := by
  unfold place
  split <;> rfl

theorem issued_setBuffer {h : Heap} {id : BufferId} {b : Buffer} (hb : h.buffer? id = some b)
    (b' : Buffer) (j : BufferId) : (h.setBuffer id b').Issued j ↔ h.Issued j := by
  have hid := buffer?_eq_some_iff.1 hb
  simp only [Issued, slots_setBuffer]
  by_cases hi : id.index = j.index
  · simp [← hi, hid]
  · simp [hi]

/-- Handles stay issued, unless the release brings the generation of the slot back to zero. -/
theorem issued_vacate {h : Heap} {id j : BufferId} {b : Buffer} (hb : h.buffer? id = some b)
    (hg : id.generation ≤ id.generation + 1) (hi : h.Issued j) : (h.vacate id).Issued j := by
  have hid := buffer?_eq_some_iff.1 hb
  obtain ⟨s, hs, hj⟩ := hi
  by_cases he : id.index = j.index
  · rw [← he, hid] at hs
    cases hs
    refine ⟨_, by rw [slots_vacate, if_pos he, ← he, hid]; rfl, Or.inl ?_⟩
    grind
  · exact ⟨s, by rw [slots_vacate, if_neg he, hs], hj⟩

theorem issued_place {h : Heap} (hs : h.Sound) (b : Buffer) (j : BufferId) :
    (h.place b).2.Issued j ↔ j = (h.place b).1 ∨ h.Issued j := by
  obtain ⟨hp, hn⟩ := slots_place hs b
  simp only [Issued, hp]
  by_cases hi : j.index = (h.place b).1.index
  · have he : j = (h.place b).1 ↔ j.generation = (h.place b).1.generation :=
      ⟨fun hj => by rw [hj], BufferId.eq_of_parts hi⟩
    rw [he, hi]
    rcases hn with ⟨hn, hz⟩ | hn
    · simp [hn, hz]
    · simp [hn, or_comm]
  · have hne : j ≠ (h.place b).1 := fun hj => hi (by rw [hj])
    simp [hi, hne]

/-- A placement gives back a handle that is not issued. -/
theorem not_issued_place {h : Heap} (hs : h.Sound) (b : Buffer) : ¬ h.Issued (h.place b).1 := by
  rintro ⟨s, hslot, hg⟩
  rcases (slots_place hs b).2 with ⟨hn, -⟩ | hn
  · rw [hn] at hslot
    cases hslot
  · rw [hn] at hslot
    cases hslot
    simp at hg

theorem sound_setBuffer {h : Heap} {id : BufferId} {b : Buffer} (hs : h.Sound)
    (hb : h.buffer? id = some b) (b' : Buffer) : (h.setBuffer id b').Sound := by
  have hid := buffer?_eq_some_iff.1 hb
  refine ⟨hs.nodup, fun i => (hs.mem_free i).trans ?_⟩
  rw [slots_setBuffer]
  by_cases hi : id.index = i
  · subst hi
    simp [hid]
  · simp [hi]

theorem sound_vacate {h : Heap} {id : BufferId} {b : Buffer} (hs : h.Sound)
    (hb : h.buffer? id = some b) : (h.vacate id).Sound := by
  have hid := buffer?_eq_some_iff.1 hb
  have hnot : id.index ∉ h.free := by
    rw [hs.mem_free, hid]
    simp
  refine ⟨List.nodup_cons.2 ⟨hnot, hs.nodup⟩, fun i => ?_⟩
  rw [slots_vacate]
  by_cases hi : id.index = i
  · subst hi
    simp [vacate, hid]
  · simpa [vacate, hi, Ne.symm hi] using hs.mem_free i

theorem sound_place {h : Heap} (hs : h.Sound) (b : Buffer) : (h.place b).2.Sound := by
  obtain ⟨hp, -⟩ := slots_place hs b
  cases hf : h.free with
  | nil =>
    have hfree : (h.place b).2.free = [] := by simp [place, hf]
    refine ⟨by simp [hfree], fun i => ?_⟩
    have hi := hs.mem_free i
    rw [hf] at hi
    rw [hp, hfree]
    by_cases he : i = (h.place b).1.index
    · simp [he]
    · simpa [he] using hi
  | cons j rest =>
    have hfree : (h.place b).2.free = rest := by simp [place, hf]
    have hindex : (h.place b).1.index = j := by simp [place, hf]
    have hn := hs.nodup
    rw [hf] at hn
    obtain ⟨hj, hrest⟩ := List.nodup_cons.1 hn
    refine ⟨by simpa [hfree] using hrest, fun i => ?_⟩
    have hi := hs.mem_free i
    rw [hf] at hi
    rw [hp, hfree, hindex]
    by_cases he : i = j
    · subst he
      simpa using hj
    · simpa [he] using hi

theorem sound_new (config : Config) : (Heap.new config).Sound := by
  refine ⟨by simp [new], fun i => ?_⟩
  simp [new]

theorem edit_frame {h h' : Heap} {id : BufferId} {f : Buffer → Except Fault Buffer} {u : Unit}
    (hx : HeapM.edit id f h = .ok u h') (j : BufferId) (hj : j ≠ id) :
    h'.buffer? j = h.buffer? j := by
  obtain ⟨b, b', hw, _, rfl⟩ := HeapM.of_edit hx
  have hb := buffer?_of_read (writable_eq_ok_iff.1 hw).1
  rw [buffer?_setBuffer hb, if_neg hj]

/-- A buffer is placed under a handle that is not issued, and nothing else changes. -/
theorem of_placed {h h' : Heap} {b : Buffer} {id : BufferId} (hs : h.Sound)
    (hx : HeapM.place b h = .ok id h') :
    h'.Sound ∧ ¬ h.Issued id ∧ ∀ j, h'.buffer? j = if j = id then some b else h.buffer? j := by
  obtain ⟨rfl, rfl⟩ := HeapM.of_place hx
  exact ⟨sound_place hs b, not_issued_place hs b, buffer?_place hs b⟩

theorem read_of_placed {h h' : Heap} {b : Buffer} {id : BufferId} (hs : h.Sound)
    (hx : HeapM.place b h = .ok id h') (hl : b.liveness ≠ .decayed) : h'.read id = .ok b := by
  obtain ⟨_, _, hb⟩ := of_placed hs hx
  exact read_eq_ok_iff.2 ⟨(hb id).trans (if_pos rfl), hl⟩

theorem allocateFrozen_apply {h : Heap} (hs : h.Sound) (x : Contents) : ∃ id h' b,
    allocateFrozen x h = .ok id h' ∧ h'.Sound ∧ h'.symbols = h.symbols ∧
      h'.read id = .ok b ∧ b.contents = x ∧ b.frozen = true ∧ b.managed = true := by
  generalize hb : { (Buffer.ofContents x).toManaged with frozen := true } = b
  have hx : allocateFrozen x h = .ok (h.place b).1 (h.place b).2 := by
    subst hb
    rfl
  refine ⟨_, _, b, hx, sound_place hs b, symbols_place h b, ?_, ?_⟩
  · apply read_eq_ok_iff.2
    constructor
    · rw [buffer?_place hs, if_pos rfl]
    · subst hb
      intro hd
      cases hd
  · subst hb
    exact ⟨rfl, rfl, rfl⟩

end Heap

def Cell.home? (c : Cell) : Option BufferId := c.references.head?

structure Buffer.Sight where
  contents : Contents
  keylist : Option BufferId
  label : Option Symbol

namespace Buffer

variable {b b' : Buffer}

def sight (b : Buffer) : Sight := ⟨b.contents, b.keylist, b.label⟩

theorem contents_of_sight (hb : b'.sight = b.sight) : b'.contents = b.contents :=
  congrArg Sight.contents hb

theorem keylist_of_sight (hb : b'.sight = b.sight) : b'.keylist = b.keylist :=
  congrArg Sight.keylist hb

theorem label_of_sight (hb : b'.sight = b.sight) : b'.label = b.label :=
  congrArg Sight.label hb

theorem length_of_sight (hb : b'.sight = b.sight) : b'.length = b.length := by
  simp only [length, contents_of_sight hb]

theorem text_of_sight (hb : b'.sight = b.sight) : b'.text = b.text := by
  simp only [text, mismatch, elementKind, contents_of_sight hb]

theorem cells_of_sight (hb : b'.sight = b.sight) : b'.cells = b.cells := by
  simp only [cells, mismatch, elementKind, contents_of_sight hb]

end Buffer

namespace Heap

def sight (h : Heap) (id : BufferId) : Except Fault Buffer.Sight := (h.read id).map Buffer.sight

theorem sight_of_read {h h' : Heap} {id : BufferId} (hr : h'.read id = h.read id) :
    h'.sight id = h.sight id := by
  rw [sight, hr, sight]

theorem sight_of_ok {h h' : Heap} {id : BufferId} {b b' : Buffer} (hr : h.read id = .ok b)
    (hr' : h'.read id = .ok b') (hb : b'.sight = b.sight) : h'.sight id = h.sight id := by
  rw [sight, hr', sight, hr]
  exact congrArg Except.ok hb

theorem read_of_sight {h h' : Heap} {id : BufferId} {b : Buffer} (hs : h'.sight id = h.sight id)
    (hr : h.read id = .ok b) : ∃ b', h'.read id = .ok b' ∧ b'.sight = b.sight := by
  unfold sight at hs
  rw [hr] at hs
  cases hr' : h'.read id with
  | ok b' =>
    rw [hr'] at hs
    exact ⟨b', rfl, Except.ok.inj hs⟩
  | error e =>
    rw [hr'] at hs
    cases hs

/-- A reader that looks at nothing else gives the same. -/
theorem reading_of_sight {α : Type} {h h' : Heap} {id : BufferId} {f : Buffer → Except Fault α}
    (hs : h'.sight id = h.sight id) (hf : ∀ b b' : Buffer, b'.sight = b.sight → f b' = f b) :
    (h'.read id >>= f) = (h.read id >>= f) := by
  cases hr : h.read id with
  | ok b =>
    obtain ⟨b', hr', hb⟩ := read_of_sight hs hr
    rw [hr', ok_bind, ok_bind, hf b b' hb]
  | error e =>
    cases hr' : h'.read id with
    | ok b' =>
      rw [sight, hr', sight, hr] at hs
      cases hs
    | error e' => rw [read_eq_error hr, read_eq_error hr']

def contents (h : Heap) (id : BufferId) : Except Fault Contents :=
  (h.read id).map (·.contents)

theorem contents_of_read {h : Heap} {id : BufferId} {b : Buffer} (hr : h.read id = .ok b) :
    h.contents id = .ok b.contents := by
  simp [contents, hr, Except.map]

theorem read_of_contents {h : Heap} {id : BufferId} {x : Contents} (hc : h.contents id = .ok x) :
    ∃ b, h.read id = .ok b ∧ b.contents = x := by
  unfold contents at hc
  cases hr : h.read id with
  | ok b =>
    rw [hr] at hc
    exact ⟨b, rfl, Except.ok.inj hc⟩
  | error e =>
    rw [hr] at hc
    cases hc

theorem contents_of_buffer? {h h' : Heap} {id : BufferId} (hb : h'.buffer? id = h.buffer? id) :
    h'.contents id = h.contents id := by
  simp only [contents, read, hb]

theorem contents_eq {h h' : Heap} {id : BufferId} (hc : h'.contents id = h.contents id) :
    (∃ b b', h.read id = .ok b ∧ h'.read id = .ok b' ∧ b'.contents = b.contents) ∨
      h.read id = .error (.dataFreed id) ∧ h'.read id = .error (.dataFreed id) := by
  unfold contents at hc
  cases hr : h.read id with
  | ok b =>
    cases hr' : h'.read id with
    | ok b' =>
      rw [hr, hr'] at hc
      exact Or.inl ⟨b, b', rfl, rfl, Except.ok.inj hc⟩
    | error e =>
      rw [hr, hr'] at hc
      cases hc
  | error e =>
    cases hr' : h'.read id with
    | ok b' =>
      rw [hr, hr'] at hc
      cases hc
    | error e' =>
      rw [read_eq_error hr, read_eq_error hr']
      exact Or.inr ⟨rfl, rfl⟩

end Heap

end CellHeap
