import CellHeap.Operation
import CellHeap.Proofs.Buffer.Edited
import CellHeap.Proofs.Cell.Header
import CellHeap.Proofs.Heap.View

/-!
# What an operation can do to a heap

Every operation, failed or not, is a chain of small steps: a spelling is
interned, a buffer is placed, edited, managed, frozen, decays, or leaves its
slot. Each step carries the condition under which the operation takes it, so
that an invariant of runs needs no more than a look at these steps.
-/

set_option autoImplicit false

namespace CellHeap

open Buffer

inductive Discipline where
  | list | slots

def Discipline.Admits : Discipline → Cell → Prop
  | .list, c => c.isElement = true
  | .slots, c => c.isUnstable = false

theorem Pair.checkNumber_eq_ok {c : Cell} {u : Unit} (hn : checkNumber c = .ok u) :
    c.isElement = true ∧ c.kind.isNumber = true := by
  unfold checkNumber at hn
  split at hn
  · rename_i hb
    rw [Bool.and_eq_true] at hb
    exact ⟨Cell.isElement_of_isBare hb.1, hb.2⟩
  · cases hn

/-- How a cell comes to stand in a buffer by an edit: it was there, or a list may hold it, or it is
stable and the buffer has keys. -/
inductive Buffer.Enters (b : Buffer) : Cell → Prop
  | kept {c : Cell} (hc : c ∈ b.stored) : Enters b c
  | locked {c : Cell} (hc : c ∈ b.stored) (on : Bool) : Enters b (c.setLocked on)
  | element {c : Cell} (hc : c.isElement = true) : Enters b c
  | assigned {c : Cell} (hc : c.isUnstable = false) (hk : b.keylist.isSome = true) : Enters b c

namespace Operation

def cells : Operation → List Cell
  | allocateWith c => c.stored
  | makeList _ cs | makeSplice cs => cs
  | makeSequence _ es _ => es
  | makePair x y => [x, y]
  | makeContext _ vars | makeFrame vars _ => vars.map (·.2)
  | makeMap entries => entries.flatMap fun (k, v) => [k, v]
  | makePhase _ body => body
  | makeParameter _ _ _ spec => spec
  | appendCells c cs | insertCells c cs => c :: cs
  | changeCell c _ v => [c, v]
  | appendText c _ | insertText c _ | appendBytes c _ | removeAt c _ => [c]
  | truncateAt c | truncate c _ | expireFrame c | lockVariable c _ _ => [c]
  | writeVariable c _ v | writeVariableMeta c _ v | appendVariable c _ v => [c, v]
  | putEntry m k v => [m, k, v]
  | removeEntry m k => [m, k]
  | _ => []

def Decays (op : Operation) (id : BufferId) : Prop :=
  op = .decay id ∨ ∃ c, op = .expireFrame c ∧ Context.varlist c = .ok id

def discipline : Operation → Option Discipline
  | makeList _ _ | makeSplice _ | makeSequence _ _ _ | makePair _ _ | makeMap _ | makePhase _ _
  | makeParameter _ _ _ _ => some .list
  | makeContext _ _ | makeFrame _ _ => some .slots
  | _ => none

structure Places (op : Operation) (b : Buffer) : Prop where
  liveness : b.liveness = if b.managed then .managed else .unmanaged
  supplied : ∀ c ∈ b.stored, Supplied op.cells [] c
  elements : op.discipline = some .list → ∀ c ∈ b.stored, c.isElement = true
  keyless : op.discipline ≠ some .slots → b.keylist = none
  formed : b.Formed

inductive Step (op : Operation) (h : Heap) : Heap → Prop
  | intern (s : String) : Step op h { h with symbols := (h.symbols.intern s).2 }
  | place (b : Buffer) (hb : op.Places b) : Step op h (h.place b).2
  | edit (id : BufferId) (b b' : Buffer) (hb : h.writable id = .ok b)
      (he : Edited (Supplied op.cells b.stored) b b')
      (hn : ∀ c ∈ b'.stored, b.Enters c) : Step op h (h.setBuffer id b')
  | manage (id : BufferId) (b : Buffer) (hb : h.read id = .ok b) :
      Step op h (h.setBuffer id (if b.managed then b else b.toManaged))
  | freeze (id : BufferId) (b : Buffer) (hb : h.read id = .ok b) :
      Step op h (h.setBuffer id { b with frozen := true })
  | decay (id : BufferId) (b : Buffer) (hop : op.Decays id) (hb : h.read id = .ok b) :
      Step op h (h.setBuffer id { b.release with liveness := .decayed })
  | release (id : BufferId) (b : Buffer) (hop : op = .release id) (hb : h.buffer? id = some b)
      (hm : b.managed = false) : Step op h (h.vacate id)
  | sweep (marked : BufferId → Bool) (id : BufferId) (b : Buffer) (hop : op = .sweep marked)
      (hb : h.buffer? id = some b) (hm : b.managed = true) (hu : marked id = false) :
      Step op h (h.vacate id)

structure Fills (op : Operation) (b : Buffer) (c : Cell) : Prop where
  supplied : Supplied op.cells b.stored c
  enters : b.Enters c

namespace Fills

variable {op : Operation} {b : Buffer} {c : Cell}

theorem kept (hc : c ∈ b.stored) : op.Fills b c := ⟨.kept hc, .kept hc⟩

theorem given (hc : c ∈ op.cells) (he : c.isElement = true) : op.Fills b c :=
  ⟨.given hc, .element he⟩

theorem copied (hc : c ∈ op.cells) (he : c.isElement = true) (slot : Cell) :
    op.Fills b (c.copyInto slot) :=
  ⟨.copied hc slot, .element he⟩

theorem assigned (hc : c ∈ op.cells) (hs : c.isUnstable = false) (hk : b.keylist.isSome = true)
    (slot : Cell) : op.Fills b (c.copyInto slot) :=
  ⟨.copied hc slot, .assigned hs hk⟩

end Fills

end Operation

open HeapM

variable {op : Operation}

theorem traced_get : Traced op.Step (get : HeapM Heap) := traced_of_unchanged fun _ => rfl

theorem traced_throw {α : Type} (e : Fault) : Traced op.Step (throw e : HeapM α) :=
  traced_of_unchanged (after_throw e)

theorem traced_intern (s : String) : Traced op.Step (Heap.intern s) :=
  traced_step fun _ => Or.inr (.intern s)

theorem traced_place {b : Buffer} (hl : b.liveness = if b.managed then .managed else .unmanaged)
    (hc : ∀ c ∈ b.stored, Supplied op.cells [] c)
    (he : op.discipline = some .list → ∀ c ∈ b.stored, c.isElement = true)
    (hk : op.discipline ≠ some .slots → b.keylist = none) (hf : b.Formed) :
    Traced op.Step (HeapM.place b) :=
  traced_step fun _ => Or.inr (.place b ⟨hl, hc, he, hk, hf⟩)

theorem traced_mark {id : BufferId} {f : Buffer → Buffer}
    (hf : ∀ h b, h.read id = .ok b → op.Step h (h.setBuffer id (f b))) :
    Traced op.Step (HeapM.mark id f) := by
  refine traced_step fun h => ?_
  cases hr : h.read id with
  | ok b =>
    have ha : (HeapM.mark id f).after h = h.setBuffer id (f b) := by simp [after, mark, hr]
    exact Or.inr (ha ▸ hf h b hr)
  | error e => exact Or.inl (by simp [after, mark, hr])

theorem chain_edit {h : Heap} {id : BufferId} {f : Buffer → Except Fault Buffer}
    (hf : ∀ b b', h.writable id = .ok b → f b = .ok b' → Edited (op.Fills b) b b') :
    Relation.ReflTransGen op.Step h ((HeapM.edit id f).after h) := by
  cases he : h.writable id >>= f with
  | ok b' =>
    obtain ⟨b, hb, hb'⟩ := bind_eq_ok_iff.1 he
    have ha : (HeapM.edit id f).after h = h.setBuffer id b' := by simp [after, edit, he]
    have hb' := hf b b' hb hb'
    rw [ha]
    exact .single (.edit id b b' hb (hb'.mono fun _ => Operation.Fills.supplied)
      fun c hc => (hb'.stored c hc).enters)
  | error e =>
    have ha : (HeapM.edit id f).after h = h := by simp [after, edit, he]
    rw [ha]

theorem traced_edit {id : BufferId} {f : Buffer → Except Fault Buffer}
    (hf : ∀ b b', f b = .ok b' → Edited (op.Fills b) b b') : Traced op.Step (HeapM.edit id f) :=
  fun _ => chain_edit fun b b' _ => hf b b'

/-- A buffer made of given cells, managed from the start. -/
theorem traced_allocateManaged {c : Contents} (hc : ∀ d ∈ c.stored, Supplied op.cells [] d)
    (he : op.discipline = some .list → ∀ d ∈ c.stored, d.isElement = true) :
    Traced op.Step (Heap.allocateManaged c) :=
  traced_place rfl hc he (fun _ => rfl) (formed_of_keyless rfl rfl)

theorem traced_allocateFrozen {c : Contents} (hc : ∀ d ∈ c.stored, Supplied op.cells [] d)
    (he : op.discipline = some .list → ∀ d ∈ c.stored, d.isElement = true) :
    Traced op.Step (Heap.allocateFrozen c) :=
  traced_place rfl hc he (fun _ => rfl) (formed_of_keyless rfl rfl)

theorem traced_editAt {c : Cell} {f : Nat → Buffer → Except Fault Buffer}
    (hf : ∀ i b b', f i b = .ok b' → Edited (op.Fills b) b b') :
    Traced op.Step (Series.editAt c f) :=
  (traced_ofRead _).then fun _ => (traced_ofRead _).then fun p => traced_edit (hf p.2)

theorem traced_reserve (c : Cell) (n : Nat) : Traced op.Step (Series.reserve c n) :=
  traced_get.then fun _ => traced_editAt fun _ _ _ h => by
    cases h
    exact reserve_edited _ fun _ => .kept

theorem traced_put {m k v : Cell} (hk : k ∈ op.cells) (hv : v ∈ op.cells) :
    Traced op.Step (Map.put m k v) := by
  apply (traced_check _).then
  intro id
  apply (traced_check _).then
  intro _
  apply (traced_ofRead _).then
  intro found
  cases found with
  | some i => exact traced_edit fun _ _ h => setCell_edited h (fun _ => .kept) (.copied hv)
  | none =>
    apply traced_edit
    intro b b' h
    apply insertCells_edited h (fun _ => .kept)
    intro c hc he
    simp only [List.mem_cons, List.not_mem_nil, or_false] at hc
    rcases hc with rfl | rfl
    · exact .given hk he
    · exact .given hv he

theorem Context.keyed_of_keylist {h : Heap} {v k : BufferId} {b : Buffer}
    (hk : Context.keylist h v = .ok k) (hb : h.read v = .ok b) : b.keylist.isSome = true := by
  obtain ⟨b', hb', hkeys⟩ := Context.keylist_eq_ok hk
  cases hb.symm.trans hb'
  rw [hkeys]
  rfl

/-- A key is found in a buffer with keys only. -/
theorem Context.keyed_of_position {h : Heap} {v : BufferId} {key : Symbol} {i : Nat} {b : Buffer}
    (hi : Context.position h v key = .ok i) (hb : h.read v = .ok b) : b.keylist.isSome = true := by
  obtain ⟨_, hi, _⟩ := bind_eq_ok_iff.1 hi
  obtain ⟨_, hi, _⟩ := bind_eq_ok_iff.1 hi
  obtain ⟨k, hk, _⟩ := bind_eq_ok_iff.1 hi
  exact Context.keyed_of_keylist hk hb

theorem traced_modify {c : Cell} {key : Symbol} {f : Cell → Except Fault Cell}
    (hf : ∀ b : Buffer, b.keylist.isSome = true → ∀ old ∈ b.stored, ∀ new, f old = .ok new →
      op.Fills b new) : Traced op.Step (Context.modify c key f) := by
  unfold Context.modify
  cases c.isConst with
  | true => exact traced_throw _
  | false =>
    apply traced_checked
    intro v _
    apply (traced_ofRead _).bind
    intro h i h' hi
    obtain ⟨hi, rfl⟩ := of_ofRead hi
    apply chain_edit
    intro b b' hw hb'
    have hk := Context.keyed_of_position hi (Heap.writable_eq_ok_iff.1 hw).1
    exact modifySlot_edited hb' (fun _ => .kept) (hf b hk)

theorem traced_write {c value : Cell} {key : Symbol} (hv : value ∈ op.cells) :
    Traced op.Step (Context.write c key value) := by
  apply traced_modify
  intro b hk old _ new h
  obtain ⟨_, hs, rfl⟩ := Cell.assign_eq_ok h
  exact .assigned hv hs hk old

theorem traced_writeMeta {c value : Cell} {key : Symbol} (hv : value ∈ op.cells) :
    Traced op.Step (Context.writeMeta c key value) := by
  apply traced_modify
  intro b _ old _ new h
  obtain ⟨_, l, hl, rfl⟩ := Cell.assignMeta_eq_ok h
  have he : l.isElement = true := by simp [Cell.isElement, Cell.isAntiform_of_toMeta hl]
  exact ⟨.lifted hv hl old, .element he⟩

/-- An edit leaves every buffer the keys that it has. -/
theorem keylist_of_edit {h h' : Heap} {k v : BufferId} {f : Buffer → Except Fault Buffer}
    {b b' : Buffer} {u : Unit} (hx : HeapM.edit k f h = .ok u h')
    (hf : ∀ x x', f x = .ok x' → x'.keylist = x.keylist) (hb : h.read v = .ok b)
    (hb' : h'.read v = .ok b') : b'.keylist = b.keylist := by
  obtain ⟨x, x', hw, hx', rfl⟩ := of_edit hx
  have hk := Heap.buffer?_of_read (Heap.writable_eq_ok_iff.1 hw).1
  rcases Heap.of_buffer?_setBuffer hk (Heap.buffer?_of_read hb') with ⟨rfl, rfl⟩ | hv
  · cases hk.symm.trans (Heap.buffer?_of_read hb)
    exact hf b b' hx'
  · cases hv.symm.trans (Heap.buffer?_of_read hb)
    rfl

theorem traced_append {c value : Cell} {key : Symbol} (hv : value ∈ op.cells) :
    Traced op.Step (Context.append c key value) := by
  apply (traced_ofRead _).then
  intro present
  cases present with
  | true => exact traced_write hv
  | false =>
    simp only [Bool.false_eq_true, if_false]
    cases c.isConst with
    | true => exact traced_throw _
    | false =>
      apply traced_checked
      intro _ hs
      apply traced_checked
      intro v _
      apply (traced_ofRead _).bind
      intro h k h' hk
      obtain ⟨hk, rfl⟩ := of_ofRead hk
      apply chain_bind (traced_ofRead _ _)
      intro b g hw
      obtain ⟨hw, rfl⟩ := of_ofRead hw
      have hb := (Heap.writable_eq_ok_iff.1 hw).1
      have hpush : Traced op.Step (HeapM.edit k (·.pushSlot (.word key))) :=
        traced_edit fun _ _ h => pushSlot_edited h (fun _ => .kept) ⟨.key key, .element rfl⟩
      apply chain_bind (hpush _)
      intro _ g' hg'
      apply chain_edit
      intro x x' hx hx'
      have hkeys : x.keylist = b.keylist := by
        apply keylist_of_edit hg' _ hb (Heap.writable_eq_ok_iff.1 hx).1
        intro y y' hy
        rw [(pushSlot_edited (P := fun _ => True) hy (by simp) trivial).frame]
      apply pushSlot_edited hx' (fun _ => .kept)
      exact .assigned hv (Variable.checkStable_eq_ok hs)
        (hkeys ▸ Context.keyed_of_keylist hk hb) .trash

/-- The slots of a table were made for given cells. -/
theorem mem_put {key : Symbol} {value c : Cell} {t : List (Symbol × Cell)}
    (hc : c ∈ (Context.put key value t).map (·.2)) : c = value ∨ c ∈ t.map (·.2) := by
  induction t with
  | nil =>
    left
    simpa [Context.put] using hc
  | cons kv t ih =>
    obtain ⟨k, v⟩ := kv
    unfold Context.put at hc
    split at hc
    · simp only [List.map_cons, List.mem_cons] at hc ⊢
      tauto
    · simp only [List.map_cons, List.mem_cons] at hc ⊢
      rcases hc with rfl | hc
      · exact Or.inr (Or.inl rfl)
      · have := ih hc
        tauto

theorem mem_table {vars : List (Symbol × Cell)} {c : Cell}
    (hc : c ∈ (Context.table vars).map (·.2)) : ∃ v ∈ vars.map (·.2), c = Variable.fresh v := by
  have hfold : ∀ (vars t : List (Symbol × Cell)),
      c ∈ (vars.foldl (fun t kv => Context.put kv.1 (Variable.fresh kv.2) t) t).map (·.2) →
        c ∈ t.map (·.2) ∨ ∃ v ∈ vars.map (·.2), c = Variable.fresh v := by
    intro vars
    induction vars with
    | nil => exact fun t h => Or.inl h
    | cons kv vars ih =>
      intro t h
      rcases ih _ h with h | ⟨v, hv, rfl⟩
      · rcases mem_put h with rfl | h
        · exact Or.inr ⟨kv.2, by simp, rfl⟩
        · exact Or.inl h
      · exact Or.inr ⟨v, List.mem_cons_of_mem _ hv, rfl⟩
  rcases hfold vars [] hc with h | h
  · simp at h
  · exact h

theorem traced_makeVarlist {vars : List (Symbol × Cell)} (hv : ∀ v ∈ vars.map (·.2), v ∈ op.cells)
    (hd : op.discipline = some .slots) : Traced op.Step (Context.makeVarlist vars) := by
  have hlist : op.discipline ≠ some .list := by simp [hd]
  apply (traced_check _).then
  intro _
  apply (traced_allocateManaged ?_ fun hop => absurd hop hlist).then
  · intro k
    apply traced_place rfl ?_ (fun hop => absurd hop hlist) (fun hop => absurd hd hop)
      ⟨rfl, fun _ => rfl⟩
    intro c hc
    obtain ⟨v, hmem, rfl⟩ := mem_table hc
    exact .copied (hv v hmem) _
  · intro c hc
    obtain ⟨⟨k, v⟩, _, rfl⟩ := List.mem_map.1 hc
    exact .key k

theorem traced_store {m : Compression} {es : List Cell} (he : ∀ e ∈ es, e ∈ op.cells)
    (hn : ∀ e ∈ es, e.isElement = true) : Traced op.Step (Sequence.store m es) := by
  intro h
  rcases Sequence.store_apply m es h with ⟨s, _, hs⟩ | ⟨a, b, hab, hs⟩ | hs
  · rw [after_of_ok hs]
  · have hpair : Traced op.Step (Heap.allocateFrozen (.pairing a b)) :=
      traced_allocateFrozen (fun d hd => .given (he d (hab ▸ hd))) fun _ d hd => hn d (hab ▸ hd)
    rw [after_congr hs]
    exact hpair.map Storage.pair h
  · have harray : Traced op.Step (Heap.allocateFrozen (.cells es)) :=
      traced_allocateFrozen (fun d hd => .given (he d hd)) fun _ => hn
    rw [after_congr hs]
    exact harray.map Storage.array h

theorem traced_sequence {k : Kind} {m : Compression} {es : List Cell}
    (he : ∀ e ∈ es, e ∈ op.cells) : Traced op.Step (Sequence.make k es m) := by
  apply traced_get.then
  intro h
  cases hv : Sequence.validate h k es with
  | error why => exact traced_pure _
  | ok _ =>
    have hn : ∀ e ∈ es, e.isElement = true := by
      intro e hes
      obtain ⟨j, hj⟩ := (Sequence.validate_eq_ok hv).2.2 e hes
      exact Cell.isElement_of_isBare (Sequence.isBare_of_objection? hj)
    exact (traced_store he hn).then fun _ => traced_pure _

/-- Releasing distinct buffers that are present is a chain, if releasing each of them is a step. -/
theorem chain_vacates {S : Heap → Heap → Prop} (gone : List BufferId) (h : Heap) (hn : gone.Nodup)
    (hg : ∀ id ∈ gone, ∃ b, h.buffer? id = some b ∧
      ∀ g : Heap, g.buffer? id = some b → S g (g.vacate id)) :
    Relation.ReflTransGen S h (gone.foldl Heap.vacate h) := by
  induction gone generalizing h with
  | nil => exact .refl
  | cons id gone ih =>
    obtain ⟨hid, hrest⟩ := List.nodup_cons.1 hn
    obtain ⟨b, hb, hstep⟩ := hg id (by simp)
    apply Relation.ReflTransGen.head (hstep h hb)
    apply ih _ hrest
    intro j hj
    obtain ⟨c, hc, hstep⟩ := hg j (by simp [hj])
    have hne : j ≠ id := fun he => hid (he ▸ hj)
    exact ⟨c, by simp [Heap.buffer?_vacate hb, hne, hc], hstep⟩

/-- What a sweep takes is taken by steps of it. -/
theorem swept_step {marked : BufferId → Bool} (hop : op = .sweep marked) {h : Heap} {id : BufferId}
    (hid : id ∈ h.ids.filter fun id => h.isManaged id && !marked id) :
    ∃ b, h.buffer? id = some b ∧ ∀ g : Heap, g.buffer? id = some b → op.Step g (g.vacate id) := by
  have hf := (List.mem_filter.1 hid).2
  simp only [Bool.and_eq_true, Bool.not_eq_true', Heap.isManaged_iff] at hf
  obtain ⟨⟨b, hb, hm⟩, hu⟩ := hf
  exact ⟨b, hb, fun g hg => .sweep marked id b hop hg hm hu⟩

theorem traced_sweep {marked : BufferId → Bool} (hop : op = .sweep marked) :
    Traced op.Step (Heap.sweep marked) :=
  fun h => chain_vacates _ h (h.nodup_ids.filter _) fun _ => swept_step hop

theorem traced_decay {id : BufferId} (hop : op.Decays id) : Traced op.Step (Heap.decay id) := by
  apply traced_step
  intro h
  cases hb : h.buffer? id with
  | none => exact Or.inl (by simp [after, Heap.decay, hb])
  | some b =>
    by_cases hl : b.liveness = .decayed
    · exact Or.inl (by simp [after, Heap.decay, hb, hl])
    · have ha : (Heap.decay id).after h = h.setBuffer id { b.release with liveness := .decayed } := by
        simp [after, Heap.decay, hb, hl]
      exact Or.inr (ha ▸ .decay id b hop (Heap.read_eq_ok_iff.2 ⟨hb, hl⟩))

theorem traced_release {id : BufferId} (hop : op = .release id) :
    Traced op.Step (Heap.release id) := by
  apply traced_step
  intro h
  cases hb : h.buffer? id with
  | none => exact Or.inl (by simp [after, Heap.release, hb])
  | some b =>
    cases hm : b.managed with
    | true => exact Or.inl (by simp [after, Heap.release, hb, hm])
    | false =>
      have ha : (Heap.release id).after h = h.vacate id := by simp [after, Heap.release, hb, hm]
      exact Or.inr (ha ▸ .release id b hop hb hm)

theorem traced_freeze (id : BufferId) : Traced op.Step (Heap.freeze id) :=
  traced_mark fun _ b hb => .freeze id b hb

theorem traced_silent {x : HeapM Unit} (hx : Traced op.Step x) :
    Traced op.Step (Operation.silent x) :=
  hx.then fun _ => traced_pure _

theorem traced_list {k : Kind} {cs : List Cell} (hc : ∀ c ∈ cs, c ∈ op.cells) :
    Traced op.Step (Lists.make k cs) := by
  apply traced_checked
  intro _ he
  have ha : Traced op.Step (Heap.allocateManaged (.cells cs)) :=
    traced_allocateManaged (fun c h => .given (hc c h)) fun _ => checkElements_eq_ok he
  exact ha.then fun _ => traced_pure _

theorem traced_map {entries : List (Cell × Cell)}
    (he : ∀ e ∈ entries, e.1 ∈ op.cells ∧ e.2 ∈ op.cells) : Traced op.Step (Map.make entries) := by
  apply (traced_place rfl ?_ ?_ (fun _ => rfl) (formed_of_keyless rfl rfl)).then
  · intro id
    apply (traced_forM entries fun e h => traced_put (he e h).1 (he e h).2).then
    exact fun _ => traced_pure _
  · simp [toManaged, ofContents, stored, Contents.stored]
  · simp [toManaged, ofContents, stored, Contents.stored]

/-- The small steps cover every operation. -/
theorem perform_traced (op : Operation) : Traced op.Step op.perform := by
  cases op with
  | intern s => exact (traced_intern s).map _
  | allocate k n =>
    apply Traced.map
    apply traced_get.then
    intro h
    apply traced_place rfl ?_ (by simp [Operation.discipline]) (fun _ => rfl)
      (formed_of_keyless (by cases k <;> rfl) rfl)
    intro c hc
    have hb : c = .blank := by cases k <;> simp_all [Buffer.empty, ofContents, Contents.empty,
      stored, Contents.stored]
    exact hb ▸ .blank
  | allocateWith c =>
    apply Traced.map
    exact traced_place rfl (fun d hd => .given hd) (by simp [Operation.discipline])
      (fun _ => rfl) (formed_of_keyless rfl rfl)
  | manage id => exact traced_silent (traced_mark fun _ b hb => .manage id b hb)
  | freeze id => exact traced_silent (traced_freeze id)
  | freezeDeep id =>
    apply traced_silent
    apply (traced_ofRead _).then
    intro _
    apply traced_get.then
    intro h
    exact traced_forM _ fun j _ => traced_freeze j
  | decay id => exact traced_silent (traced_decay (Or.inl rfl))
  | release id => exact traced_silent (traced_release rfl)
  | sweep marked => exact (traced_sweep rfl).map _
  | makeWord s => exact ((traced_intern s).then fun _ => traced_pure _).map _
  | makeKeyword s =>
    exact (((traced_intern s).then fun _ => traced_pure _).then fun _ => traced_pure _).map _
  | makeString k s =>
    exact ((traced_allocateManaged (by simp [Contents.stored]) (by simp [Contents.stored])).then
      fun _ => traced_pure _).map _
  | makeRune s =>
    apply Traced.map
    unfold Strings.makeRune
    cases Cell.rune? s with
    | some c => exact traced_pure _
    | none =>
      exact (traced_allocateFrozen (by simp [Contents.stored]) (by simp [Contents.stored])).then
        fun _ => traced_pure _
  | makeBlob bs =>
    exact ((traced_allocateManaged (by simp [Contents.stored]) (by simp [Contents.stored])).then
      fun _ => traced_pure _).map _
  | makeList k cs => exact (traced_list fun _ h => h).map _
  | makeSplice cs => exact ((traced_list fun _ h => h).then fun _ => traced_check _).map _
  | makeSequence k es m =>
    apply (traced_sequence fun _ h => h).then
    intro r
    cases r <;> exact traced_pure _
  | makePair x y =>
    apply Traced.map
    apply traced_checked
    intro _ hx
    apply traced_checked
    intro _ hy
    have hn : ∀ d ∈ [x, y], d.isElement = true := by
      simp [(Pair.checkNumber_eq_ok hx).1, (Pair.checkNumber_eq_ok hy).1]
    have ha : Traced (Operation.Step (.makePair x y)) (Heap.allocateFrozen (.pairing x y)) :=
      traced_allocateFrozen (fun d hd => .given hd) fun _ => hn
    exact ha.then fun _ => traced_pure _
  | makeContext k vars =>
    apply Traced.map
    apply (traced_makeVarlist ?_ rfl).then
    · exact fun _ => traced_pure _
    · exact fun v h => h
  | makeFrame vars l =>
    apply Traced.map
    apply (traced_makeVarlist ?_ rfl).then
    · exact fun _ => traced_pure _
    · exact fun v h => h
  | makeMap entries =>
    apply (traced_map ?_).map
    intro e he
    simp only [Operation.cells, List.mem_flatMap]
    exact ⟨⟨e, he, by simp⟩, e, he, by simp⟩
  | makePhase l body =>
    apply Traced.map
    apply traced_checked
    intro _ he
    exact traced_place rfl (fun d hd => .given hd) (fun _ => checkElements_eq_ok he)
      (fun _ => rfl) (formed_of_keyless rfl rfl)
  | makeParameter m t f spec =>
    apply Traced.map
    apply traced_checked
    intro _ he
    have ha : Traced (Operation.Step (.makeParameter m t f spec))
        (Heap.allocateFrozen (.cells spec)) :=
      traced_allocateFrozen (fun d hd => .given hd) fun _ => checkElements_eq_ok he
    exact ha.then fun _ => traced_pure _
  | appendCells c cs =>
    apply traced_silent
    apply (traced_reserve c _).then
    intro _
    exact traced_editAt fun _ _ _ h =>
      insertCells_edited h (fun _ => .kept) fun d hd => .given (List.mem_cons_of_mem c hd)
  | insertCells c cs =>
    apply traced_silent
    apply (traced_reserve c _).then
    intro _
    exact traced_editAt fun _ _ _ h =>
      insertCells_edited h (fun _ => .kept) fun d hd => .given (List.mem_cons_of_mem c hd)
  | changeCell c n v =>
    apply traced_silent
    exact traced_editAt fun _ _ _ h =>
      setCell_edited h (fun _ => .kept) (.copied (by simp [Operation.cells]))
  | appendText c s =>
    exact traced_silent ((traced_reserve c _).then fun _ =>
      traced_editAt fun _ _ _ h => insertText_edited h)
  | insertText c s =>
    exact traced_silent ((traced_reserve c _).then fun _ =>
      traced_editAt fun _ _ _ h => insertText_edited h)
  | appendBytes c bs =>
    exact traced_silent ((traced_reserve c _).then fun _ =>
      traced_editAt fun _ _ _ h => insertBytes_edited h)
  | removeAt c n =>
    exact traced_silent (traced_editAt fun _ _ _ h => remove_edited h fun _ => .kept)
  | truncateAt c =>
    exact traced_silent (traced_editAt fun _ _ _ h => truncate_edited h fun _ => .kept)
  | truncate c n =>
    apply traced_silent
    apply (traced_ofRead _).then
    intro id
    exact traced_edit fun _ _ h => truncate_edited h fun _ => .kept
  | writeVariable c k v =>
    exact traced_silent (traced_write (by simp [Operation.cells]))
  | writeVariableMeta c k v => exact traced_silent (traced_writeMeta (by simp [Operation.cells]))
  | appendVariable c k v =>
    exact traced_silent (traced_append (by simp [Operation.cells]))
  | lockVariable c k on =>
    apply traced_silent
    apply traced_modify
    intro b _ old hold new h
    cases h
    exact ⟨.locked hold on, .locked hold on⟩
  | expireFrame c =>
    apply traced_silent
    apply (traced_check _).bind
    intro h id h' hv
    exact traced_decay (Or.inr ⟨c, rfl, (of_ofRead hv).1⟩) h'
  | putEntry m k v =>
    exact traced_silent (traced_put (by simp [Operation.cells]) (by simp [Operation.cells]))
  | removeEntry m k =>
    apply Traced.map
    apply (traced_check _).then
    intro id
    apply (traced_ofRead _).then
    intro found
    cases found with
    | none => exact traced_pure _
    | some i => exact (traced_edit fun _ _ h => remove_edited h fun _ => .kept).then fun _ => traced_pure _

/-- What every step keeps is kept by a chain of them. -/
theorem chain_induction {S : Heap → Heap → Prop} (P : Heap → Prop) {h h' : Heap}
    (hc : Relation.ReflTransGen S h h') (hp : P h) (hstep : ∀ h h', P h → S h h' → P h') :
    P h' := by
  induction hc with
  | refl => exact hp
  | tail _ hs ih => exact hstep _ _ ih hs

theorem after_perform (op : Operation) (h : Heap) : op.perform.after h = op.after h := by
  unfold HeapM.after Operation.after
  cases op.perform h <;> rfl

theorem after_of_silent {op : Operation} {x : HeapM Unit} (hop : op.perform = Operation.silent x)
    (h : Heap) : op.after h = x.after h := by
  rw [← after_perform, hop]
  exact HeapM.after_wrap (fun _ => Answer.done) x h

theorem after_induction (P : Heap → Prop) (op : Operation) {h : Heap} (hp : P h)
    (hstep : ∀ h h', P h → op.Step h h' → P h') : P (op.after h) := by
  rw [← after_perform]
  exact chain_induction P (perform_traced op h) hp hstep

end CellHeap
