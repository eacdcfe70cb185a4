import CellHeap.Proofs.Heap.Arena

/-!
# Freezing all that can be reached

The walk from a buffer enters every readable buffer that the contents of entered
buffers lead to. So a deep freeze leaves no readable buffer behind it unfrozen, and
it changes nothing that readers see.
-/

set_option autoImplicit false

namespace CellHeap.Heap

open Relation

variable {h h' : Heap} {id i j : BufferId} {seen todo : List BufferId}

def Leads (h : Heap) (id j : BufferId) : Prop := ∃ js, h.children id = .ok js ∧ j ∈ js

def Reaches (h : Heap) (c : Cell) (j : BufferId) : Prop :=
  ∃ id ∈ c.references, ReflTransGen h.Leads id j

theorem leads_iff : h.Leads id j ↔ ∃ b, h.read id = .ok b ∧ j ∈ b.references := by
  constructor
  · rintro ⟨js, hjs, hj⟩
    obtain ⟨b, hb, hjs⟩ := bind_eq_ok_iff.1 hjs
    cases hjs
    exact ⟨b, hb, hj⟩
  · rintro ⟨b, hb, hj⟩
    exact ⟨b.references, by simp [children, hb], hj⟩

theorem Leads.isReadable (hl : h.Leads id j) : h.isReadable id = true := by
  obtain ⟨b, hb, _⟩ := leads_iff.1 hl
  exact isReadable_iff.2 ⟨b, hb⟩

theorem Reaches.tail {c : Cell} (hi : h.Reaches c i) (hl : h.Leads i j) : h.Reaches c j := by
  obtain ⟨id, hid, hi⟩ := hi
  exact ⟨id, hid, hi.tail hl⟩

/-- A set that holds the buffers of a cell and is closed holds all that the cell reaches. -/
theorem Reaches.closed {c : Cell} {P : BufferId → Prop} (hj : h.Reaches c j)
    (hroot : ∀ id ∈ c.references, P id) (hstep : ∀ i j, P i → h.Leads i j → P j) : P j := by
  obtain ⟨id, hid, hl⟩ := hj
  induction hl with
  | refl => exact hroot id hid
  | tail _ hl ih => exact hstep _ _ ih hl

theorem walk_of_mem (hid : id ∈ seen) : h.walk seen (id :: todo) = h.walk seen todo := by
  rw [walk, dif_pos hid]

theorem walk_of_children {js : List BufferId} (hid : id ∉ seen) (hjs : h.children id = .ok js) :
    h.walk seen (id :: todo) = h.walk (id :: seen) (js ++ todo) := by
  obtain ⟨b, hb, hjs⟩ := bind_eq_ok_iff.1 hjs
  cases hjs
  rw [walk, dif_neg hid]
  split
  · rename_i b' hb'
    rw [hb] at hb'
    cases hb'
    rfl
  · rename_i e he
    cases he.symm.trans hb

def Frontier (h : Heap) (seen todo : List BufferId) : Prop :=
  ∀ i ∈ seen, ∀ j, h.Leads i j → h.isReadable j = true → j ∈ seen ∨ j ∈ todo

theorem frontier_walk (hf : h.Frontier seen todo) : h.Frontier (h.walk seen todo) [] := by
  fun_induction walk h seen todo with
  | case1 seen => exact hf
  | case2 seen id todo hs ih =>
    apply ih
    intro i hi j hl hj
    rcases hf i hi j hl hj with hj | hj
    · exact Or.inl hj
    · rcases List.mem_cons.1 hj with rfl | hj
      · exact Or.inl hs
      · exact Or.inr hj
  | case3 seen id todo hs b hb ih =>
    apply ih
    intro i hi j hl hj
    rcases List.mem_cons.1 hi with rfl | hi
    · obtain ⟨b', hb', hmem⟩ := leads_iff.1 hl
      obtain rfl : b = b' := Except.ok.inj (hb.symm.trans hb')
      exact Or.inr (List.mem_append_left _ hmem)
    · rcases hf i hi j hl hj with hj | hj
      · exact Or.inl (List.mem_cons_of_mem _ hj)
      · rcases List.mem_cons.1 hj with rfl | hj
        · exact Or.inl List.mem_cons_self
        · exact Or.inr (List.mem_append_right _ hj)
  | case4 seen id todo hs e he ih =>
    apply ih
    intro i hi j hl hj
    rcases hf i hi j hl hj with hmem | hmem
    · exact Or.inl hmem
    · rcases List.mem_cons.1 hmem with rfl | hmem
      · obtain ⟨b, hb⟩ := isReadable_iff.1 hj
        cases he.symm.trans hb
      · exact Or.inr hmem

theorem mem_walk (hid : id ∈ seen ∨ id ∈ todo ∧ h.isReadable id = true) :
    id ∈ h.walk seen todo := by
  fun_induction walk h seen todo with
  | case1 seen => exact hid.resolve_right fun hnil => nomatch hnil.1
  | case2 seen i todo hs ih =>
    apply ih
    rcases hid with hid | ⟨hid, hr⟩
    · exact Or.inl hid
    · rcases List.mem_cons.1 hid with rfl | hid
      · exact Or.inl hs
      · exact Or.inr ⟨hid, hr⟩
  | case3 seen i todo hs b hb ih =>
    apply ih
    rcases hid with hid | ⟨hid, hr⟩
    · exact Or.inl (List.mem_cons_of_mem _ hid)
    · rcases List.mem_cons.1 hid with rfl | hid
      · exact Or.inl List.mem_cons_self
      · exact Or.inr ⟨List.mem_append_right _ hid, hr⟩
  | case4 seen i todo hs e he ih =>
    apply ih
    rcases hid with hid | ⟨hid, hr⟩
    · exact Or.inl hid
    · rcases List.mem_cons.1 hid with rfl | hid
      · obtain ⟨b, hb⟩ := isReadable_iff.1 hr
        cases he.symm.trans hb
      · exact Or.inr ⟨hid, hr⟩

/-- The walk leaves out no readable buffer. -/
theorem mem_reachable (hl : ReflTransGen h.Leads id j) (hj : h.isReadable j = true) :
    j ∈ h.reachable id := by
  have hclosed : h.Frontier (h.reachable id) [] := frontier_walk fun i hi => nomatch hi
  induction hl with
  | refl => exact mem_walk (Or.inr ⟨List.mem_cons_self, hj⟩)
  | tail _ hl ih =>
    have hi := ih hl.isReadable
    exact (hclosed _ hi _ hl hj).resolve_right fun hnil => nomatch hnil

structure Hardened (h h' : Heap) : Prop where
  sight : ∀ id, h'.sight id = h.sight id
  frozen : ∀ id, h.isFrozen id = .ok true → h'.isFrozen id = .ok true

namespace Hardened

theorem refl (h : Heap) : h.Hardened h := ⟨fun _ => rfl, fun _ => id⟩

theorem trans {h₁ h₂ h₃ : Heap} (ha : h₁.Hardened h₂) (hb : h₂.Hardened h₃) : h₁.Hardened h₃ :=
  ⟨fun id => (hb.sight id).trans (ha.sight id), fun id hz => hb.frozen id (ha.frozen id hz)⟩

theorem isReadable (hh : h.Hardened h') (hr : h.isReadable id = true) :
    h'.isReadable id = true := by
  obtain ⟨b, hb⟩ := isReadable_iff.1 hr
  obtain ⟨b', hb', _⟩ := read_of_sight (hh.sight id) hb
  exact isReadable_iff.2 ⟨b', hb'⟩

theorem leads (hh : h.Hardened h') (hl : h.Leads i j) : h'.Leads i j := by
  obtain ⟨b, hb, hj⟩ := leads_iff.1 hl
  obtain ⟨b', hb', hs⟩ := read_of_sight (hh.sight i) hb
  refine leads_iff.2 ⟨b', hb', ?_⟩
  rw [Buffer.references, Buffer.cells_of_sight hs, Buffer.keylist_of_sight hs]
  exact hj

end Hardened

theorem hardened_of_freeze (hx : freeze id h = .ok () h') :
    h.Hardened h' ∧ h'.isFrozen id = .ok true := by
  unfold freeze HeapM.mark at hx
  cases hr : h.read id with
  | error e =>
    rw [hr] at hx
    cases hx
  | ok b =>
    rw [hr] at hx
    cases hx
    have hb := buffer?_of_read hr
    have hsame : ∀ j, j ≠ id →
        (h.setBuffer id { b with frozen := true }).read j = h.read j := by
      intro j hj
      simp only [read, buffer?_setBuffer hb, if_neg hj]
    have hself : (h.setBuffer id { b with frozen := true }).read id =
        .ok { b with frozen := true } :=
      read_eq_ok_iff.2 ⟨by rw [buffer?_setBuffer hb, if_pos rfl], (read_eq_ok_iff.1 hr).2⟩
    have hfrozen : (h.setBuffer id { b with frozen := true }).isFrozen id = .ok true := by
      simp [isFrozen, hself]
    refine ⟨⟨fun j => ?_, fun j hj => ?_⟩, hfrozen⟩
    · by_cases he : j = id
      · subst he
        exact sight_of_ok hr hself rfl
      · exact sight_of_read (hsame j he)
    · by_cases he : j = id
      · subst he
        exact hfrozen
      · rw [isFrozen, hsame j he]
        exact hj

/-- A row of steps that harden the heap, each freezing what was meant from the start. -/
theorem hardened_of_forM {f : BufferId → HeapM Unit} (Meant : Heap → BufferId → BufferId → Prop)
    (hmeant : ∀ {h h' i j}, h.Hardened h' → Meant h i j → Meant h' i j)
    (hf : ∀ {i h h'}, f i h = .ok () h' →
      h.Hardened h' ∧ ∀ j, Meant h i j → h'.isFrozen j = .ok true)
    (ids : List BufferId) (hx : ids.forM f h = .ok () h') :
    h.Hardened h' ∧ ∀ i ∈ ids, ∀ j, Meant h i j → h'.isFrozen j = .ok true := by
  induction ids generalizing h with
  | nil =>
    obtain ⟨_, rfl⟩ := HeapM.of_pure hx
    exact ⟨.refl _, fun i hi => nomatch hi⟩
  | cons id ids ih =>
    obtain ⟨_, g, hid, hx⟩ := HeapM.of_bind hx
    obtain ⟨hg, hfirst⟩ := hf hid
    obtain ⟨hh', hrest⟩ := ih hx
    refine ⟨hg.trans hh', fun i hi j hj => ?_⟩
    rcases List.mem_cons.1 hi with rfl | hi
    · exact hh'.frozen j (hfirst j hj)
    · exact hrest i hi j (hmeant hg hj)

theorem hardened_of_freezeDeep (hx : freezeDeep id h = .ok () h') : h.Hardened h' ∧
    ∀ j, ReflTransGen h.Leads id j ∧ h.isReadable j = true → h'.isFrozen j = .ok true := by
  obtain ⟨_, _, hx⟩ := HeapM.of_reading hx
  obtain ⟨g, g', hg, hx⟩ := HeapM.of_bind hx
  cases hg
  obtain ⟨hh, hz⟩ := hardened_of_forM (fun _ i j => i = j) (fun _ hij => hij)
    (fun hi => ⟨(hardened_of_freeze hi).1, fun _ hij => hij ▸ (hardened_of_freeze hi).2⟩) _ hx
  exact ⟨hh, fun j hj => hz j (mem_reachable hj.1 hj.2) j rfl⟩

/-- Once all buffers of a cell are frozen deeply, every readable buffer in its reach is frozen. -/
theorem frozen_of_reaches {c : Cell} (hx : c.references.forM freezeDeep h = .ok () h') :
    h.Hardened h' ∧ ∀ j, h.Reaches c j → h.isReadable j = true → h'.isFrozen j = .ok true := by
  obtain ⟨hh, hz⟩ := hardened_of_forM
    (fun h i j => ReflTransGen h.Leads i j ∧ h.isReadable j = true)
    (fun hh hj => ⟨ReflTransGen.mono (fun _ _ => hh.leads) _ _ hj.1, hh.isReadable hj.2⟩)
    hardened_of_freezeDeep _ hx
  refine ⟨hh, fun j hj hr => ?_⟩
  obtain ⟨id, hid, hl⟩ := hj
  exact hz id hid j ⟨hl, hr⟩

end CellHeap.Heap
