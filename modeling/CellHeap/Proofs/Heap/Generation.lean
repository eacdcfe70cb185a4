import CellHeap.Proofs.Heap.Step

/-!
# Generations

A slot steps on to its next generation whenever its buffer is released, and at no
other time, so its generation counts its releases modulo 2^32. An operation advances
if it takes no slot back to an earlier generation. In a run whose operations all
advance a handle names one buffer only; the heap at the end of this module shows
how a run comes round.
-/

set_option autoImplicit false

namespace CellHeap

namespace Heap

/-- The generation of a slot. A slot that does not exist yet is at the first one. -/
def generation (h : Heap) (i : Nat) : UInt32 := (h.slots[i]?.map (·.generation)).getD 0

def occupied (h : Heap) (i : Nat) : Bool := (h.slots[i]?.bind (·.buffer)).isSome

def Advances (h h' : Heap) : Prop := ∀ i, h.generation i ≤ h'.generation i

variable {h h' : Heap} {id : BufferId} {b : Buffer}

theorem generation_of_buffer? (hb : h.buffer? id = some b) :
    h.generation id.index = id.generation := by
  simp [generation, buffer?_eq_some_iff.1 hb]

theorem occupied_of_buffer? (hb : h.buffer? id = some b) : h.occupied id.index = true := by
  simp [occupied, buffer?_eq_some_iff.1 hb]

theorem generation_setBuffer (h : Heap) (id : BufferId) (b : Buffer) (i : Nat) :
    (h.setBuffer id b).generation i = h.generation i := by
  unfold generation
  rw [slots_setBuffer]
  by_cases hi : id.index = i
  · rw [if_pos hi]
    cases h.slots[i]? <;> rfl
  · rw [if_neg hi]

theorem occupied_setBuffer (h : Heap) (id : BufferId) (b : Buffer) {i : Nat}
    (ho : h.occupied i = true) : (h.setBuffer id b).occupied i = true := by
  unfold occupied at ho ⊢
  rw [slots_setBuffer]
  by_cases hi : id.index = i
  · rw [if_pos hi]
    cases hs : h.slots[i]? with
    | none => simp [hs] at ho
    | some s => rfl
  · rwa [if_neg hi]

/-- A new slot starts where a missing one is taken to be. -/
theorem generation_place (h : Heap) (b : Buffer) (i : Nat) :
    (h.place b).2.generation i = h.generation i := by
  unfold generation place
  cases h.free with
  | nil =>
    rw [Array.getElem?_push]
    by_cases hi : i = h.slots.size
    · simp [hi]
    · rw [if_neg hi]
  | cons j rest =>
    rw [Array.getElem?_modify]
    by_cases hi : j = i
    · rw [if_pos hi]
      cases h.slots[i]? <;> rfl
    · rw [if_neg hi]

theorem occupied_place (h : Heap) (b : Buffer) {i : Nat} (ho : h.occupied i = true) :
    (h.place b).2.occupied i = true := by
  unfold occupied at ho ⊢
  unfold place
  cases h.free with
  | nil =>
    rw [Array.getElem?_push]
    by_cases hi : i = h.slots.size
    · simp [hi]
    · rwa [if_neg hi]
  | cons j rest =>
    rw [Array.getElem?_modify]
    by_cases hi : j = i
    · rw [if_pos hi]
      cases hs : h.slots[i]? with
      | none => simp [hs] at ho
      | some s => rfl
    · rwa [if_neg hi]

theorem generation_vacate (hb : h.buffer? id = some b) (i : Nat) :
    (h.vacate id).generation i = h.generation i + if i = id.index then 1 else 0 := by
  unfold generation
  rw [slots_vacate]
  by_cases hi : id.index = i
  · subst hi
    simp [buffer?_eq_some_iff.1 hb]
  · simp [hi, Ne.symm hi]

/-- A release that does not bring the generation back to zero. -/
theorem Advances.next (ha : h.Advances (h.vacate id)) (hb : h.buffer? id = some b) :
    id.generation ≤ id.generation + 1 := by
  have hle := ha id.index
  rwa [generation_vacate hb, if_pos rfl, generation_of_buffer? hb] at hle

theorem occupied_vacate (h : Heap) (id : BufferId) (i : Nat) :
    (h.vacate id).occupied i = (h.occupied i && decide (i ≠ id.index)) := by
  unfold occupied
  rw [slots_vacate]
  by_cases hi : id.index = i
  · subst hi
    cases h.slots[id.index]? <;> simp
  · simp [hi, Ne.symm hi]

/-- Handles of buffers present name slots of their own. -/
theorem eq_of_index {j : BufferId} {c : Buffer} (hb : h.buffer? id = some b)
    (hc : h.buffer? j = some c) (hi : id.index = j.index) : id = j := by
  apply BufferId.eq_of_parts hi
  rw [← generation_of_buffer? hb, ← generation_of_buffer? hc, hi]

/-- Releasing buffers takes each of their slots one generation on, and no other slot. -/
theorem generation_vacates (gone : List BufferId) (h : Heap) (hn : gone.Nodup)
    (hg : ∀ id ∈ gone, ∃ b, h.buffer? id = some b) (i : Nat) :
    (gone.foldl vacate h).generation i =
        h.generation i + (if i ∈ gone.map (·.index) then 1 else 0) ∧
      (gone.foldl vacate h).occupied i = (h.occupied i && i ∉ gone.map (·.index)) := by
  induction gone generalizing h with
  | nil => simp
  | cons id gone ih =>
    obtain ⟨hid, hrest⟩ := List.nodup_cons.1 hn
    obtain ⟨b, hb⟩ := hg id (by simp)
    have hne : ∀ j ∈ gone, j ≠ id := fun j hj he => hid (he ▸ hj)
    have hpresent : ∀ j ∈ gone, ∃ c, (h.vacate id).buffer? j = some c := by
      intro j hj
      obtain ⟨c, hc⟩ := hg j (by simp [hj])
      exact ⟨c, by rw [buffer?_vacate hb, if_neg (hne j hj), hc]⟩
    have hindex : id.index ∉ gone.map (·.index) := by
      intro hmem
      obtain ⟨j, hj, he⟩ := List.mem_map.1 hmem
      obtain ⟨c, hc⟩ := hg j (by simp [hj])
      exact hne j hj (eq_of_index hc hb he)
    obtain ⟨hgen, hocc⟩ := ih (h.vacate id) hrest hpresent
    rw [List.foldl_cons, hgen, hocc, generation_vacate hb, occupied_vacate]
    by_cases hi : i = id.index
    · subst hi
      simp [hindex]
    · simp [hi]

end Heap

namespace Operation

variable {op : Operation} {h h' : Heap}

def releases : Operation → Bool
  | release _ | sweep _ => true
  | _ => false

/-- The operation takes no slot back to an earlier generation. -/
def Advances (h : Heap) (op : Operation) : Prop := h.Advances (op.after h)

theorem generation_of_step (hop : op.releases = false) (hstep : op.Step h h') (i : Nat) :
    h'.generation i = h.generation i ∧ (h.occupied i = true → h'.occupied i = true) := by
  cases hstep with
  | intern s => exact ⟨rfl, fun ho => ho⟩
  | place b => exact ⟨h.generation_place b i, h.occupied_place b⟩
  | edit id _ b' => exact ⟨h.generation_setBuffer id b' i, h.occupied_setBuffer id b'⟩
  | manage id | freeze id | decay id =>
    exact ⟨h.generation_setBuffer id _ i, h.occupied_setBuffer id _⟩
  | release _ _ he | sweep _ _ _ he =>
    subst he
    cases hop

theorem advances_of_step (hop : op.releases = false) (hstep : op.Step h h') : h.Advances h' :=
  fun i => UInt32.le_of_eq (generation_of_step hop hstep i).1.symm

/-- What a release by hand and a sweep do: they take out buffers that are present, by steps. -/
theorem after_of_releases (hop : op.releases = true) (h : Heap) :
    ∃ gone : List BufferId, gone.Nodup ∧ op.after h = gone.foldl Heap.vacate h ∧
      ∀ id ∈ gone, ∃ b, h.buffer? id = some b ∧
        ∀ g : Heap, g.buffer? id = some b → op.Step g (g.vacate id) := by
  cases op with
  | release id =>
    rw [after_of_silent rfl]
    unfold HeapM.after Heap.release
    cases hb : h.buffer? id with
    | none => exact ⟨[], by simp⟩
    | some b =>
      cases hm : b.managed with
      | true => exact ⟨[], by simp [hm]⟩
      | false =>
        refine ⟨[id], by simp, by simp [hm], ?_⟩
        intro j hj
        rw [List.mem_singleton] at hj
        subst hj
        exact ⟨b, hb, fun g hg => .release j b rfl hg hm⟩
  | sweep marked => exact ⟨_, h.nodup_ids.filter _, rfl, fun _ => swept_step rfl⟩
  | _ => cases hop

/-- What is present after buffers were taken out was present before. -/
theorem buffer?_of_releases {id : BufferId} {b : Buffer} (hop : op.releases = true)
    (hb : (op.after h).buffer? id = some b) : h.buffer? id = some b := by
  obtain ⟨gone, hn, hafter, hgone⟩ := after_of_releases hop h
  rw [hafter, Heap.buffer?_vacates gone h hn fun j hj => (hgone j hj).imp fun _ => And.left] at hb
  by_cases hid : id ∈ gone
  · simp [hid] at hb
  · rwa [if_neg hid] at hb

theorem generation_of_after (hop : op.releases = false) (h : Heap) (i : Nat) :
    (op.after h).generation i = h.generation i ∧
      (h.occupied i = true → (op.after h).occupied i = true) := by
  apply after_induction (fun g => g.generation i = h.generation i ∧
    (h.occupied i = true → g.occupied i = true)) op ⟨rfl, fun ho => ho⟩
  rintro g g' ⟨hgen, hocc⟩ hstep
  obtain ⟨hgen', hocc'⟩ := generation_of_step hop hstep i
  exact ⟨hgen'.trans hgen, fun ho => hocc' (hocc ho)⟩

/-- An operation that does not release buffers advances. -/
theorem advances (hop : op.releases = false) (h : Heap) : op.Advances h :=
  fun i => UInt32.le_of_eq (generation_of_after hop h i).1.symm

/-- A slot steps on if the operation empties it, and only then. -/
theorem generation_after (op : Operation) (h : Heap) (i : Nat) :
    (op.after h).generation i =
      h.generation i + if h.occupied i && !(op.after h).occupied i then 1 else 0 := by
  cases hop : op.releases with
  | false =>
    obtain ⟨hgen, hocc⟩ := generation_of_after hop h i
    rw [hgen]
    cases ho : h.occupied i with
    | false => simp
    | true => simp [hocc ho]
  | true =>
    obtain ⟨gone, hn, hafter, hgone⟩ := after_of_releases hop h
    have hpresent : ∀ id ∈ gone, ∃ b, h.buffer? id = some b := fun id hid =>
      (hgone id hid).imp fun _ => And.left
    obtain ⟨hgen, hocc⟩ := Heap.generation_vacates gone h hn hpresent i
    rw [hafter, hgen, hocc]
    by_cases hi : i ∈ gone.map (·.index)
    · obtain ⟨id, hid, rfl⟩ := List.mem_map.1 hi
      obtain ⟨b, hb⟩ := hpresent id hid
      simp [hi, Heap.occupied_of_buffer? hb]
    · simp [hi]

/-- An operation that advances is a chain of steps that do. -/
theorem after_chain (hop : op.Advances h) :
    Relation.ReflTransGen (fun g g' => op.Step g g' ∧ g.Advances g') h (op.after h) := by
  cases hr : op.releases with
  | false =>
    rw [← after_perform]
    have hsteady : ∀ g g', op.Step g g' → op.Step g g' ∧ g.Advances g' := fun g g' hstep =>
      ⟨hstep, advances_of_step hr hstep⟩
    exact Relation.ReflTransGen.mono hsteady h _ (perform_traced op h)
  | true =>
    obtain ⟨gone, hn, hafter, hgone⟩ := after_of_releases hr h
    have hpresent : ∀ id ∈ gone, ∃ b, h.buffer? id = some b := fun id hid =>
      (hgone id hid).imp fun _ => And.left
    rw [hafter]
    apply chain_vacates gone h hn
    intro id hid
    obtain ⟨b, hb, hstep⟩ := hgone id hid
    -- the operation takes this slot one generation on, so it is not in its last one
    have hnext : id.generation ≤ id.generation + 1 := by
      have hle := hop id.index
      rw [hafter, (Heap.generation_vacates gone h hn hpresent id.index).1,
        Heap.generation_of_buffer? hb, if_pos (List.mem_map_of_mem hid)] at hle
      exact hle
    refine ⟨b, hb, fun g hg => ⟨hstep g hg, fun i => ?_⟩⟩
    rw [Heap.generation_vacate hg]
    by_cases hi : i = id.index
    · rw [if_pos hi, hi, Heap.generation_of_buffer? hg]
      exact hnext
    · simp [hi]

end Operation

/-- What every small step keeps, with the knowledge that it advances where the operation is known
to, is kept by the operation. -/
theorem after_induction_if (P : Heap → Prop) (q : Prop) (op : Operation) {h : Heap}
    (hq : q → op.Advances h) (hp : P h)
    (hstep : ∀ g g', P g → op.Step g g' → (q → g.Advances g') → P g') : P (op.after h) := by
  by_cases hk : q
  · exact chain_induction P (op.after_chain (hq hk)) hp fun g g' hg hs =>
      hstep g g' hg hs.1 fun _ => hs.2
  · exact after_induction P op hp fun g g' hg hs => hstep g g' hg hs fun hk' => absurd hk' hk

namespace Heap

variable {h : Heap} {p : Heap → Operation → Prop}

def Throughout (p : Heap → Operation → Prop) : Heap → List Operation → Prop
  | _, [] => True
  | h, op :: ops => p h op ∧ Throughout p (op.after h) ops

instance decidableThroughout [∀ h op, Decidable (p h op)] :
    (h : Heap) → (ops : List Operation) → Decidable (h.Throughout p ops)
  | _, [] => .isTrue trivial
  | h, op :: ops =>
    have := decidableThroughout (op.after h) ops
    inferInstanceAs (Decidable (p h op ∧ (op.after h).Throughout p ops))

theorem throughout_append (ops rest : List Operation) :
    h.Throughout p (ops ++ rest) ↔ h.Throughout p ops ∧ (h.run ops).Throughout p rest := by
  induction ops generalizing h with
  | nil => simp [Throughout, run]
  | cons op ops ih => simp [Throughout, run, ih, and_assoc]

/-- A run that does not release buffers. -/
theorem advances_of_forall (ops : List Operation) (hops : ∀ op ∈ ops, op.releases = false) :
    h.Throughout Operation.Advances ops := by
  induction ops generalizing h with
  | nil => trivial
  | cons op ops ih =>
    rw [List.forall_mem_cons] at hops
    exact ⟨op.advances hops.1 h, ih hops.2⟩

def releases (h : Heap) (i : Nat) : List Operation → Nat
  | [] => 0
  | op :: ops =>
    (if h.occupied i && !(op.after h).occupied i then 1 else 0) + (op.after h).releases i ops

/-- The generation of a slot counts its releases, modulo 2^32. -/
theorem generation_run (h : Heap) (i : Nat) (ops : List Operation) :
    (h.run ops).generation i = h.generation i + UInt32.ofNat (h.releases i ops) := by
  induction ops generalizing h with
  | nil => simp [run, releases]
  | cons op ops ih =>
    have hone := op.generation_after h i
    unfold run releases
    rw [ih, hone, UInt32.ofNat_add, UInt32.add_assoc]
    by_cases he : (h.occupied i && !(op.after h).occupied i) = true <;> simp [he]

/-- A run in which no slot is released too often advances all along. -/
theorem advances_of_releases (ops : List Operation)
    (hr : ∀ i, (h.generation i).toNat + h.releases i ops < UInt32.size) :
    h.Throughout Operation.Advances ops := by
  induction ops generalizing h with
  | nil => trivial
  | cons op ops ih =>
    have hnext : ∀ i, ((op.after h).generation i).toNat = (h.generation i).toNat +
        if h.occupied i && !(op.after h).occupied i then 1 else 0 := by
      intro i
      have hi := hr i
      rw [releases] at hi
      rw [op.generation_after h i]
      split <;> simp_all [UInt32.toNat_add, UInt32.size]
      omega
    constructor
    · intro i
      rw [UInt32.le_iff_toNat_le, hnext i]
      omega
    · apply ih
      intro i
      have hi := hr i
      rw [releases] at hi
      rw [hnext i]
      omega

theorem releases_le_length (h : Heap) (i : Nat) (ops : List Operation) :
    h.releases i ops ≤ ops.length := by
  induction ops generalizing h with
  | nil => exact Nat.le_refl _
  | cons op ops ih =>
    have hrest := ih (op.after h)
    rw [releases, List.length_cons]
    split <;> omega

theorem generation_new (config : Config) (i : Nat) : (Heap.new config).generation i = 0 := by
  simp [generation, new]

/-- No run of fewer than 2^32 operations comes round. -/
theorem advances_of_length (config : Config) (ops : List Operation)
    (hl : ops.length < UInt32.size) : (Heap.new config).Throughout Operation.Advances ops := by
  apply advances_of_releases
  intro i
  have hle := (Heap.new config).releases_le_length i ops
  rw [generation_new, UInt32.toNat_zero]
  omega

def vacant (config : Config) (g : UInt32) : Heap :=
  { slots := #[⟨g, none⟩], free := [0], config := config.validate }

def rounds : Nat → List Operation
  | 0 => []
  | n + 1 => .makeBlob [] :: .sweep (fun _ => false) :: rounds n

theorem run_round (config : Config) (g : UInt32) :
    (vacant config g).run [.makeBlob [], .sweep fun _ => false] = vacant config (g + 1) := by
  have hplaced : (Operation.makeBlob []).after (vacant config g) =
      { slots := #[⟨g, some (Buffer.ofContents (.bytes [])).toManaged⟩], free := [],
        config := config.validate } := rfl
  rw [run_cons, hplaced]
  simp [Operation.after, Operation.perform, sweep, ids, isManaged, buffer?, vacate, vacant,
    Buffer.toManaged, Functor.map, EStateM.map]

theorem run_rounds (config : Config) (g : UInt32) (n : Nat) :
    (vacant config g).run (rounds n) = vacant config (g + UInt32.ofNat n) := by
  induction n generalizing g with
  | zero => simp [rounds]
  | succ n ih =>
    have hround := run_round config g
    rw [run_cons, run_cons, run_nil] at hround
    rw [rounds, run_cons, run_cons, hround, ih, UInt32.ofNat_add, UInt32.add_assoc,
      UInt32.add_comm 1]
    rfl

/-- After the last generation comes the first. -/
theorem rounds_come_round (config : Config) :
    (vacant config 1).run (rounds 4294967295) = vacant config 0 := by
  rw [run_rounds]
  rfl

theorem mem_rounds {op : Operation} {n : Nat} (hop : op ∈ rounds n) :
    op = .makeBlob [] ∨ ∃ marked, op = .sweep marked := by
  induction n with
  | zero => cases hop
  | succ n ih =>
    simp only [rounds, List.mem_cons] at hop
    rcases hop with rfl | rfl | hop
    · exact Or.inl rfl
    · exact Or.inr ⟨_, rfl⟩
    · exact ih hop

end Heap

end CellHeap
