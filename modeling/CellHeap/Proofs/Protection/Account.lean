import CellHeap.Proofs.Context.Table
import CellHeap.Proofs.Map.Pairlist
import CellHeap.Proofs.Protection.Locks

/-!
# An account of protected cells

Stored over a cell or in a variable, a value leaves its protection behind, and
the slot keeps its own. So a run in which no protected cell is stored as it is
leaves a buffer with no more protected cells than there were calls to protect
one of its variables.
-/

set_option autoImplicit false

namespace CellHeap

open HeapM

namespace Operation

def wholesale : Operation → List Cell
  | allocateWith c => c.stored
  | makeList _ cs | makeSplice cs => cs
  | makeSequence _ es _ => es
  | makePair x y => [x, y]
  | makeMap entries => Map.flatten entries
  | makePhase _ body => body
  | makeParameter _ _ _ spec => spec
  | appendCells _ cs | insertCells _ cs => cs
  | putEntry _ k v => [k, v]
  | _ => []

def assigns : Operation → Bool
  | changeCell _ _ _ | makeContext _ _ | makeFrame _ _ | writeVariable _ _ _
  | writeVariableMeta _ _ _ | appendVariable _ _ _ => true
  | _ => false

def protects (id : BufferId) : Operation → Bool
  | lockVariable c _ on => on && decide ((Context.varlist c).toOption = some id)
  | _ => false

end Operation

structure Heap.Relocked (h g : Heap) (id : BufferId) (bits : List Bool) : Prop where
  here : g.locks id = bits
  elsewhere : ∀ j ≠ id, g.locks j = h.locks j

namespace Protection

open Heap

variable {h g : Heap} {id : BufferId}

theorem relocked_of_edit {f : Buffer → Except Fault Buffer} {u : Unit}
    (hx : edit id f h = .ok u g) :
    ∃ b b', h.locks id = b.locks ∧ f b = .ok b' ∧ h.Relocked g id b'.locks := by
  obtain ⟨b, b', hw, hb', rfl⟩ := of_edit hx
  have hb := buffer?_of_read (writable_eq_ok_iff.1 hw).1
  refine ⟨b, b', locks_of_buffer? hb, hb', ?_, fun j hj => ?_⟩
  · rw [locks_setBuffer hb, if_pos rfl]
  · rw [locks_setBuffer hb, if_neg hj]

theorem relocked_place (hs : h.Sound) {b : Buffer} (hx : place b h = .ok id g) :
    h.Relocked g id b.locks := by
  obtain ⟨_, _, hbuffer⟩ := of_placed hs hx
  exact ⟨locks_of_buffer? ((hbuffer id).trans (if_pos rfl)),
    fun j hj => locks_congr ((hbuffer j).trans (if_neg hj))⟩

section Masking

/-- A variable never holds a protected cell after a write. -/
theorem isLocked_of_assign {slot value d : Cell} (hd : Variable.assign slot value = .ok d) :
    d.isLocked = false := by
  obtain ⟨hslot, _, rfl⟩ := Cell.assign_eq_ok hd
  exact hslot

theorem isLocked_of_assignMeta {slot value d : Cell}
    (hd : Variable.assignMeta slot value = .ok d) : d.isLocked = false := by
  obtain ⟨hslot, _, _, rfl⟩ := Cell.assignMeta_eq_ok hd
  exact hslot

theorem traced_modify_of_kept {c : Cell} {key : Symbol} {f : Cell → Except Fault Cell}
    (hf : ∀ old new, f old = .ok new → new.isLocked = old.isLocked) :
    Traced (Shifts Pads) (Context.modify c key f) := by
  apply traced_modify Pads.refl
  intro i b b' hx
  rw [Buffer.modifySlot_locks_of_kept hf hx]
  exact Pads.refl _

theorem traced_write (c : Cell) (key : Symbol) (value : Cell) :
    Traced (Shifts Pads) (Context.write c key value) := by
  apply traced_modify_of_kept
  intro old new hx
  obtain ⟨_, _, rfl⟩ := Cell.assign_eq_ok hx
  rfl

theorem traced_writeMeta (c : Cell) (key : Symbol) (value : Cell) :
    Traced (Shifts Pads) (Context.writeMeta c key value) := by
  apply traced_modify_of_kept
  intro old new hx
  obtain ⟨_, _, _, rfl⟩ := Cell.assignMeta_eq_ok hx
  rfl

theorem traced_pushSlot {d : Cell} (hd : d.isLocked = false) :
    Traced (Shifts Pads) (edit id (·.pushSlot d)) := by
  apply traced_edit Pads.refl
  intro b b' hx
  rw [Buffer.pushSlot_locks hx]
  exact pads_of_unlocked (by simp [hd])

theorem traced_append (c : Cell) (key : Symbol) (value : Cell) :
    Traced (Shifts Pads) (Context.append c key value) := by
  apply (traced_ofRead _).then
  intro present
  cases present with
  | true => exact traced_write c key value
  | false =>
    simp only [Bool.false_eq_true, if_false]
    cases c.isConst with
    | true => exact traced_of_unchanged (after_throw _)
    | false =>
      refine (traced_check _).then fun _ => (traced_check _).then fun v => ?_
      refine (traced_ofRead _).then fun k => (traced_ofRead _).then fun _ => ?_
      exact (traced_pushSlot rfl).then fun _ => traced_pushSlot rfl

/-- A new variable is not protected, whatever it is made for. -/
theorem traced_makeVarlist (vars : List (Symbol × Cell)) :
    Traced (Shifts Pads) (Context.makeVarlist vars) := by
  apply (traced_check _).then
  intro _
  apply (traced_place Pads.refl ?_).then
  · intro k
    apply traced_place Pads.refl
    apply pads_of_unlocked (l := [])
    intro x hx
    obtain ⟨c, hc, rfl⟩ := List.mem_map.1 hx
    obtain ⟨v, _, rfl⟩ := mem_table hc
    rfl
  · apply pads_of_unlocked (l := [])
    intro x hx
    obtain ⟨c, hc, rfl⟩ := List.mem_map.1 hx
    obtain ⟨_, _, rfl⟩ := List.mem_map.1 hc
    rfl

theorem traced_assigns {op : Operation} (hop : op.assigns = true) :
    Traced (Shifts Pads) op.perform := by
  cases op with
  | changeCell c n v =>
    apply traced_silent
    apply traced_editAt Pads.refl
    intro i b b' hx
    rw [Buffer.setCell_locks hx]
    exact Pads.refl _
  | makeContext k vars => exact ((traced_makeVarlist vars).then fun _ => traced_pure _).map _
  | makeFrame vars l => exact ((traced_makeVarlist vars).then fun _ => traced_pure _).map _
  | writeVariable c k v => exact traced_silent (traced_write c k v)
  | writeVariableMeta c k v => exact traced_silent (traced_writeMeta c k v)
  | appendVariable c k v => exact traced_silent (traced_append c k v)
  | _ => simp [Operation.assigns] at hop

end Masking

/-- Protecting a variable changes the bit of its slot. -/
theorem relocked_of_setLocked {c : Cell} {key : Symbol} {on : Bool} {u : Unit}
    (hx : Context.setLocked c key on h = .ok u g) :
    ∃ id i, Context.varlist c = .ok id ∧ Context.position h id key = .ok i ∧
      h.Relocked g id ((h.locks id).set i on) := by
  unfold Context.setLocked Context.modify at hx
  cases hc : c.isConst with
  | true =>
    rw [hc] at hx
    cases hx
  | false =>
    simp only [hc, Bool.false_eq_true, if_false] at hx
    obtain ⟨id, hv, hx⟩ := of_checked hx
    obtain ⟨i, hi, hx⟩ := of_reading hx
    obtain ⟨b, b', hb, hb', hre⟩ := relocked_of_edit hx
    obtain ⟨old, new, hnew, _, hlocks⟩ := Buffer.modifySlot_locks hb'
    cases hnew
    refine ⟨id, i, hv, hi, ?_⟩
    rw [hb]
    exact hlocks ▸ hre

section Account

theorem Thins.refl (l : List Bool) : Thins l l := Nat.le_refl _

theorem Thins.trans (l m n : List Bool) (h₁ : Thins l m) (h₂ : Thins m n) : Thins l n :=
  Nat.le_trans h₂ h₁

theorem thins_of_sublist {l l' : List Bool} (hl : l'.Sublist l) : Thins l l' :=
  hl.count_le true

theorem thins_of_eq_nil {l l' : List Bool} (hl : l' = []) : Thins l l' := by
  subst hl
  exact Nat.zero_le _

theorem thins_of_insert {b b' : Buffer} {i : Nat} {new : List Cell}
    (hn : ∀ c ∈ new, c.isLocked = false) (hx : b.insertCells i new = .ok b') :
    Thins b.locks b'.locks := by
  have hcut : (b.locks.take i).count true + (b.locks.drop i).count true = b.locks.count true := by
    rw [← List.count_append, List.take_append_drop]
  rw [Thins, Buffer.insertCells_locks hx, List.count_append, List.count_append,
    count_unlocked hn]
  omega

theorem traced_house (b : Buffer) (hb : ∀ c ∈ b.stored, c.isLocked = false) :
    Traced (Shifts Thins) (place b) :=
  traced_place Thins.refl (thins_of_count_zero (count_unlocked hb))

theorem traced_managed (x : Contents) (hx : ∀ c ∈ x.stored, c.isLocked = false) :
    Traced (Shifts Thins) (Heap.allocateManaged x) :=
  traced_house _ hx

theorem traced_frozen (x : Contents) (hx : ∀ c ∈ x.stored, c.isLocked = false) :
    Traced (Shifts Thins) (Heap.allocateFrozen x) :=
  traced_house _ hx

theorem traced_store {m : Compression} {es : List Cell} (he : ∀ e ∈ es, e.isLocked = false) :
    Traced (Shifts Thins) (Sequence.store m es) := by
  intro h
  rcases Sequence.store_apply m es h with ⟨s, _, hs⟩ | ⟨a, b, rfl, hs⟩ | hs
  · rw [after_of_ok hs]
  · rw [after_congr hs]
    exact (traced_frozen (.pairing a b) he).map Storage.pair h
  · rw [after_congr hs]
    exact (traced_frozen (.cells es) he).map Storage.array h

theorem traced_list {k : Kind} {cs : List Cell} (hc : ∀ c ∈ cs, c.isLocked = false) :
    Traced (Shifts Thins) (Lists.make k cs) :=
  (traced_check _).then fun _ => (traced_managed (.cells cs) hc).then fun _ => traced_pure _

theorem traced_put {m k v : Cell} (hk : k.isLocked = false) (hv : v.isLocked = false) :
    Traced (Shifts Thins) (Map.put m k v) := by
  refine (traced_check _).then fun id => (traced_check _).then fun _ => ?_
  apply (traced_ofRead _).then
  intro found
  cases found with
  | some i =>
    apply traced_edit Thins.refl
    intro b b' hx
    rw [Buffer.setCell_locks hx]
    exact Thins.refl _
  | none => exact traced_edit Thins.refl fun b b' hx => thins_of_insert (by simp [hk, hv]) hx

theorem traced_decay (id : BufferId) : Traced (Shifts Thins) (Heap.decay id) := by
  refine traced_step fun h => ?_
  cases hb : h.buffer? id with
  | none => exact Or.inl (by simp [after, Heap.decay, hb])
  | some b =>
    by_cases hl : b.liveness = .decayed
    · exact Or.inl (by simp [after, Heap.decay, hb, hl])
    · have ha : (Heap.decay id).after h = h.setBuffer id { b.release with liveness := .decayed } := by
        simp [after, Heap.decay, hb, hl]
      rw [ha]
      exact Or.inr (shifts_setBuffer Thins.refl hb
        (thins_of_count_zero (Contents.count_locked_empty _)))

theorem shifts_vacate {h : Heap} {id : BufferId} {b : Buffer} (hb : h.buffer? id = some b) :
    Shifts Thins h (h.vacate id) := by
  intro hs
  refine ⟨sound_vacate hs hb, fun j => ?_⟩
  rw [locks_vacate hb]
  by_cases hj : j = id
  · exact thins_of_eq_nil (if_pos hj)
  · rw [if_neg hj]
    exact Thins.refl _

theorem traced_release (id : BufferId) : Traced (Shifts Thins) (Heap.release id) := by
  refine traced_step fun h => ?_
  cases hb : h.buffer? id with
  | none => exact Or.inl (by simp [after, Heap.release, hb])
  | some b =>
    cases hm : b.managed with
    | true => exact Or.inl (by simp [after, Heap.release, hb, hm])
    | false =>
      have ha : (Heap.release id).after h = h.vacate id := by simp [after, Heap.release, hb, hm]
      rw [ha]
      exact Or.inr (shifts_vacate hb)

theorem vacates_shift (doomed : List BufferId) (h : Heap) (hn : doomed.Nodup)
    (hd : ∀ id ∈ doomed, ∃ b, h.buffer? id = some b) :
    Relation.ReflTransGen (Shifts Thins) h (doomed.foldl Heap.vacate h) := by
  induction doomed generalizing h with
  | nil => exact .refl
  | cons id rest ih =>
    obtain ⟨hid, hrest⟩ := List.nodup_cons.1 hn
    obtain ⟨b, hb⟩ := hd id (by simp)
    apply Relation.ReflTransGen.head (shifts_vacate hb)
    apply ih _ hrest
    intro j hj
    obtain ⟨b', hb'⟩ := hd j (by simp [hj])
    have hne : j ≠ id := fun he => hid (he ▸ hj)
    exact ⟨b', by rw [buffer?_vacate hb, if_neg hne, hb']⟩

theorem traced_sweep (marked : BufferId → Bool) : Traced (Shifts Thins) (Heap.sweep marked) := by
  intro h
  apply vacates_shift _ h (h.nodup_ids.filter _)
  intro id hid
  obtain ⟨b, hb, _⟩ := isManaged_iff.1 (Bool.and_eq_true_iff.1 (List.mem_filter.1 hid).2).1
  exact ⟨b, hb⟩

theorem traced_grow {c : Cell} {n : Nat} {f : Nat → Buffer → Except Fault Buffer}
    (hf : ∀ i b b', f i b = .ok b' → Thins b.locks b'.locks) :
    Traced (Shifts Thins) (do Series.reserve c n; Series.editAt c f) :=
  (traced_reserve Thins.refl c n).then fun _ => traced_editAt Thins.refl hf

theorem count_set_le (l : List Bool) (i : Nat) (x : Bool) :
    (l.set i x).count true ≤ l.count true + if x then 1 else 0 := by
  induction l generalizing i with
  | nil => simp
  | cons y l ih =>
    cases i with
    | zero => cases x <;> cases y <;> simp
    | succ i =>
      have := ih i
      cases y <;> simp <;> omega

theorem traced_unlock (c : Cell) (key : Symbol) :
    Traced (Shifts Thins) (Context.setLocked c key false) := by
  apply traced_modify Thins.refl
  intro i b b' hx
  obtain ⟨_, _, hnew, _, hlocks⟩ := Buffer.modifySlot_locks hx
  cases hnew
  rw [hlocks]
  exact count_set_le _ _ _

theorem traced_of_pads {op : Operation} (hop : op.assigns = true) :
    Traced (Shifts Thins) op.perform := by
  intro h
  refine Relation.ReflTransGen.mono (fun a b hab hs => ?_) _ _ (traced_assigns hop h)
  exact ⟨(hab hs).1, fun id => ((hab hs).2 id).thins⟩

/-- An operation that is given no protected cell to store as it is, and does not protect a
variable, leaves no buffer with more protected cells. -/
theorem traced_thins {op : Operation} (hw : ∀ v ∈ op.wholesale, v.isLocked = false)
    (hop : ∀ c k, op ≠ .lockVariable c k true) : Traced (Shifts Thins) op.perform := by
  -- an assignment adds no protected cell, whether its value is protected or not
  by_cases hassign : op.assigns = true
  · exact traced_of_pads hassign
  cases op with
  | intern s => exact (traced_intern Thins.refl s).map _
  | allocate k n =>
    apply Traced.map
    refine traced_get.then fun h => traced_place Thins.refl ?_
    exact thins_of_count_zero (Contents.count_locked_empty k)
  | allocateWith c => exact (traced_house (.ofContents c) hw).map _
  | manage id =>
    apply traced_silent
    apply traced_mark Thins.refl
    intro b
    cases b.managed <;> rfl
  | freeze id => exact traced_silent (traced_mark Thins.refl fun _ => rfl)
  | freezeDeep id =>
    apply traced_silent
    refine (traced_ofRead _).then fun _ => traced_get.then fun h => ?_
    exact traced_forM _ fun j _ => traced_mark Thins.refl fun _ => rfl
  | decay id => exact traced_silent (traced_decay id)
  | release id => exact traced_silent (traced_release id)
  | sweep marked => exact (traced_sweep marked).map _
  | makeWord s => exact ((traced_intern Thins.refl s).then fun _ => traced_pure _).map _
  | makeKeyword s =>
    refine Traced.map _ ((Traced.then ?_ fun _ => traced_pure _))
    exact (traced_intern Thins.refl s).then fun _ => traced_pure _
  | makeString k s =>
    exact ((traced_managed (.text s) (by simp [Contents.stored])).then fun _ => traced_pure _).map _
  | makeRune s =>
    apply Traced.map
    unfold Strings.makeRune
    cases Cell.rune? s with
    | some c => exact traced_pure _
    | none =>
      exact (traced_frozen (.text s) (by simp [Contents.stored])).then fun _ => traced_pure _
  | makeBlob bs =>
    exact ((traced_managed (.bytes bs) (by simp [Contents.stored])).then
      fun _ => traced_pure _).map _
  | makeList k cs => exact (traced_list hw).map _
  | makeSplice cs => exact ((traced_list hw).then fun _ => traced_check _).map _
  | makeSequence k es m =>
    apply Traced.then
    · apply traced_get.then
      intro h
      cases Sequence.validate h k es with
      | error why => exact traced_pure _
      | ok _ => exact (traced_store hw).then fun _ => traced_pure _
    · intro r
      cases r <;> exact traced_pure _
  | makePair x y =>
    apply Traced.map
    refine (traced_check _).then fun _ => (traced_check _).then fun _ => ?_
    exact (traced_frozen (.pairing x y) hw).then fun _ => traced_pure _
  | makeMap entries =>
    apply Traced.map
    apply Traced.then (traced_place Thins.refl (thins_of_count_zero rfl))
    intro id
    apply (traced_forM entries ?_).then
    · exact fun _ => traced_pure _
    · intro e he
      have hmem : e.1 ∈ Map.flatten entries ∧ e.2 ∈ Map.flatten entries :=
        ⟨List.mem_flatMap.2 ⟨e, he, by simp⟩, List.mem_flatMap.2 ⟨e, he, by simp⟩⟩
      exact traced_put (hw _ hmem.1) (hw _ hmem.2)
  | makePhase l body =>
    apply Traced.map
    apply (traced_check _).then
    exact fun _ => traced_house _ hw
  | makeParameter m t f spec =>
    apply Traced.map
    refine (traced_check _).then fun _ => ?_
    exact (traced_frozen (.cells spec) hw).then fun _ => traced_pure _
  | appendCells c cs => exact traced_silent (traced_grow fun _ _ _ hx => thins_of_insert hw hx)
  | insertCells c cs => exact traced_silent (traced_grow fun _ _ _ hx => thins_of_insert hw hx)
  | appendText c s =>
    apply traced_silent
    exact traced_grow fun _ _ _ hx => thins_of_eq_nil (Buffer.insertText_locks hx)
  | insertText c s =>
    apply traced_silent
    exact traced_grow fun _ _ _ hx => thins_of_eq_nil (Buffer.insertText_locks hx)
  | appendBytes c bs =>
    apply traced_silent
    exact traced_grow fun _ _ _ hx => thins_of_eq_nil (Buffer.insertBytes_locks hx)
  | removeAt c n =>
    apply traced_silent
    exact traced_editAt Thins.refl fun _ _ _ hx => thins_of_sublist (Buffer.remove_locks hx)
  | truncateAt c =>
    apply traced_silent
    exact traced_editAt Thins.refl fun _ _ _ hx => thins_of_sublist (Buffer.truncate_locks hx)
  | truncate c n =>
    apply traced_silent
    refine (traced_ofRead _).then fun id => traced_edit Thins.refl ?_
    exact fun b b' hx => thins_of_sublist (Buffer.truncate_locks hx)
  | lockVariable c k on =>
    cases on with
    | true => exact absurd rfl (hop c k)
    | false => exact traced_silent (traced_unlock c k)
  | expireFrame c => exact traced_silent ((traced_check _).then fun id => traced_decay id)
  | putEntry m k v =>
    apply traced_silent
    exact traced_put (hw k (by simp [Operation.wholesale])) (hw v (by simp [Operation.wholesale]))
  | removeEntry m k =>
    apply Traced.map
    refine (traced_check _).then fun id => (traced_ofRead _).then fun found => ?_
    cases found with
    | none => exact traced_pure _
    | some i =>
      refine Traced.then (traced_edit Thins.refl ?_) fun _ => traced_pure _
      exact fun b b' hx => thins_of_sublist (Buffer.remove_locks hx)
  | changeCell | makeContext | makeFrame | writeVariable | writeVariableMeta | appendVariable =>
    exact absurd rfl hassign

/-- One call protects at most one cell. -/
theorem after_lock_le (c : Cell) (key : Symbol) (h : Heap) (id : BufferId) :
    (((Operation.lockVariable c key true).after h).locks id).count true ≤
      (h.locks id).count true + if Operation.protects id (.lockVariable c key true) then 1 else 0 := by
  rw [after_of_silent (x := Context.setLocked c key true) rfl h]
  cases hx : Context.setLocked c key true h with
  | error e g =>
    rw [after_of_error hx, Context.atomic_modify c key _ h e g hx]
    exact Nat.le_add_right _ _
  | ok u g =>
    rw [after_of_ok hx]
    obtain ⟨id', i, hv, _, hre⟩ := relocked_of_setLocked hx
    by_cases hid : id = id'
    · have hcall : Operation.protects id (.lockVariable c key true) = true := by
        simp [Operation.protects, hv, hid, Except.toOption]
      rw [hid, hre.here, ← hid, hcall]
      exact count_set_le _ i true
    · rw [hre.elsewhere id hid]
      exact Nat.le_add_right _ _

theorem after_locks_le {op : Operation} (hs : h.Sound)
    (hw : ∀ v ∈ op.wholesale, v.isLocked = false) (id : BufferId) :
    ((op.after h).locks id).count true ≤
      (h.locks id).count true + if op.protects id then 1 else 0 := by
  -- a call is one edit and adds at most one; the steps of any other operation add none
  by_cases hop : ∃ c k, op = .lockVariable c k true
  · obtain ⟨c, k, rfl⟩ := hop
    exact after_lock_le c k h id
  · have htraced := traced_thins hw fun c k he => hop ⟨c, k, he⟩
    have hthin := (shifts_of_traced Thins.refl Thins.trans htraced h hs).2 id
    rw [after_perform] at hthin
    exact Nat.le_trans hthin (Nat.le_add_right _ _)

theorem run_locks_le (ops : List Operation) (hs : h.Sound)
    (hw : ∀ op ∈ ops, ∀ v ∈ op.wholesale, v.isLocked = false) (id : BufferId) :
    ((h.run ops).locks id).count true ≤
      (h.locks id).count true + ops.countP (·.protects id) := by
  induction ops generalizing h with
  | nil => exact Nat.le_refl _
  | cons op ops ih =>
    rw [List.forall_mem_cons] at hw
    have hop := after_locks_le hs hw.1 id
    have hrest := ih (after_sound op hs) hw.2
    rw [run_cons, List.countP_cons]
    omega

end Account

end Protection

end CellHeap
