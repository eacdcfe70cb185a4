import CellHeap.Proofs.Heap.Lifetime
import CellHeap.Proofs.Heap.Sweep
import CellHeap.Proofs.Typing.Store

/-!
# Placing, marking and editing respect roles

The life of a buffer does not touch its role: marks leave the contents alone, and
what is dropped is not read any more. An edit keeps the shape of its buffer, so
that only the stored cells have to be looked at, and the parity of the list behind
a map. Through a series cell only texts, bytes and lists are edited.
-/

set_option autoImplicit false

namespace CellHeap

variable {R : Roles} {h : Heap}

theorem Role.Fits.marked {r : Role} {b b' : Buffer} (hf : r.Fits b)
    (hc : b'.contents = b.contents) (hk : b'.keylist = b.keylist)
    (hs : b'.fixedSize = b.fixedSize) (hz : b.frozen = true → b'.frozen = true) : r.Fits b' := by
  have hst : b'.stored = b.stored := by simp [Buffer.stored, hc]
  have he : b'.elementKind = b.elementKind := by simp [Buffer.elementKind, hc]
  constructor
  · have hshape := hf.shape
    cases r <;> simp only [Role.Shape, hst, he, hk, hs] at hshape ⊢
    case sequence => exact ⟨hz hshape.1, hshape.2⟩
    case pair => exact ⟨hz hshape.1, hshape.2⟩
    case body => exact ⟨hz hshape.1, hshape.2⟩
    all_goals exact hshape
  · rw [hst]
    exact hf.admits

/-- An edit keeps the shape of a role; only the length of a pairlist has to be looked at. -/
theorem Role.Fits.edited {r : Role} {b b' : Buffer} (hf : r.Fits b)
    (he : Buffer.Edited (fun c => c.Typed R ∧ r.Admits c) b b')
    (hp : r = .pairlist → Even b'.stored.length) : r.Fits b' := by
  constructor
  · have hshape := hf.shape
    have hkind := he.elementKind
    rw [he.frame] at hkind ⊢
    cases r with
    | pairlist =>
      refine ⟨?_, hp rfl⟩
      rw [← hshape.1]
      exact hkind
    | _ => simpa only [Role.Shape, hkind] using hshape
  · intro c hc
    exact (he.stored c hc).2

theorem Heap.Typed.admitted {id : BufferId} {r : Role} {b : Buffer} (ht : h.Typed R)
    (hr : R id = some r) (hread : h.read id = .ok b) :
    ∀ c ∈ b.stored, c.Typed R ∧ r.Admits c := by
  intro c hc
  exact ⟨ht.stored id b (Heap.read_eq_ok_iff.1 hread).1 c hc, (ht.fits id r b hr hread).admits c hc⟩

theorem Heap.Typed.accepts {id : BufferId} {r : Role} {b b' : Buffer} (ht : h.Typed R)
    (hr : R id = some r) (hread : h.read id = .ok b)
    (he : Buffer.Edited (fun c => c.Typed R ∧ r.Admits c) b b')
    (hp : r = .pairlist → Even b'.stored.length) : Heap.Accepts R id b' := by
  constructor
  · intro c hc
    exact (he.stored c hc).1
  · intro s hs _
    rw [hr] at hs
    cases hs
    exact (ht.fits id r b hr hread).edited he hp

namespace HeapM

/-- A new buffer takes a role at once. -/
theorem respects_place {b : Buffer} {r : Role} (hc : h.Consistent R)
    (hb : ∀ c ∈ b.stored, c.Typed R) (hl : b.liveness ≠ .decayed) (hf : r.Fits b)
    (hk : ∀ k, r = .varlist k → R k = some .keylist ∧ (∀ v, R v ≠ some (.varlist k)) ∧
      ∀ c, h.read k = .ok c → b.length = c.length) :
    Respects R h (place b) fun S h' id =>
      R id = none ∧ S = R.assign id r ∧ h'.read id = .ok b := by
  obtain ⟨hc', hn⟩ := hc.place hb
  have hread : (h.place b).2.read (h.place b).1 = .ok b := by
    apply Heap.read_eq_ok_iff.2
    constructor
    · rw [Heap.buffer?_place hc.sound, if_pos rfl]
    · exact hl
  refine ⟨R.assign (h.place b).1 r, Roles.le_assign r hn, ?_, ?_⟩
  · apply hc'.assign hread hn hf
    intro k hr
    obtain ⟨hkey, hsole, hlen⟩ := hk k hr
    refine ⟨hkey, hsole, ?_⟩
    intro c hck
    apply hlen
    obtain ⟨hbuf, hlive⟩ := Heap.read_eq_ok_iff.1 hck
    -- the keys have a role already, so theirs is not the new handle
    have hne : k ≠ (h.place b).1 := by
      intro he
      rw [he, hn] at hkey
      cases hkey
    rw [Heap.buffer?_place hc.sound, if_neg hne] at hbuf
    exact Heap.read_eq_ok_iff.2 ⟨hbuf, hlive⟩
  · intro id h' hid
    obtain ⟨he, hh⟩ := of_place hid
    subst he hh
    exact ⟨hn, rfl, hread⟩

/-- A buffer that no cell is going to name needs no role. -/
theorem respects_place_loose {b : Buffer} (hc : h.Consistent R)
    (hb : ∀ c ∈ b.stored, c.Typed R) : Respects R h (place b) fun S _ _ => S = R :=
  ⟨R, R.le_refl, (hc.place hb).1, fun _ _ _ => rfl⟩

theorem respects_mark {id : BufferId} {f : Buffer → Buffer} (hc : h.Consistent R)
    (hf : ∀ b, h.read id = .ok b → (h.setBuffer id (f b)).Consistent R) :
    Respects R h (mark id f) fun S _ _ => S = R := by
  refine ⟨R, R.le_refl, ?_, fun _ _ _ => rfl⟩
  cases hr : h.read id with
  | ok b =>
    have ha : (mark id f).after h = h.setBuffer id (f b) := by simp [after, mark, hr]
    rw [ha]
    exact hf b hr
  | error e =>
    have ha : (mark id f).after h = h := by simp [after, mark, hr]
    rwa [ha]

/-- A mark that leaves the contents alone. -/
theorem respects_mark_of {id : BufferId} {f : Buffer → Buffer} (hc : h.Consistent R)
    (hf : ∀ b, (f b).contents = b.contents ∧ (f b).keylist = b.keylist ∧
      (f b).fixedSize = b.fixedSize ∧ (b.frozen = true → (f b).frozen = true)) :
    Respects R h (mark id f) fun S _ _ => S = R := by
  apply respects_mark hc
  intro b hr
  obtain ⟨hcont, hkeys, hsize, hfrozen⟩ := hf b
  obtain ⟨hb, hl⟩ := Heap.read_eq_ok_iff.1 hr
  apply hc.setBuffer hb
  · constructor
    · have hst : (f b).stored = b.stored := by simp [Buffer.stored, hcont]
      rw [hst]
      exact hc.stored id b hb
    · intro r hrole _
      exact (hc.fits id r b hrole hr).marked hcont hkeys hsize hfrozen
  · intro _ _
    exact ⟨hl, by simp [Buffer.length, hcont]⟩

theorem respects_freeze (id : BufferId) (hc : h.Consistent R) :
    Respects R h (Heap.freeze id) fun S _ _ => S = R :=
  respects_mark_of hc fun _ => ⟨rfl, rfl, rfl, fun _ => rfl⟩

theorem respects_manage (id : BufferId) (hc : h.Consistent R) :
    Respects R h (Heap.manage id) fun S _ _ => S = R := by
  apply respects_mark_of hc
  intro b
  by_cases hm : b.managed = true
  · simp [hm]
  · simp [hm, Buffer.toManaged]

theorem typed_of_empty (k : ElementKind) : ∀ c ∈ (Contents.empty k).stored, c.Typed R := by
  intro c hc
  rw [Contents.blank_of_mem_empty hc]
  exact Or.inl rfl

theorem respects_decay (id : BufferId) (hc : h.Consistent R) :
    Respects R h (Heap.decay id) fun S _ _ => S = R := by
  refine ⟨R, R.le_refl, ?_, fun _ _ _ => rfl⟩
  cases hb : h.buffer? id with
  | none =>
    have ha : (Heap.decay id).after h = h := by simp [after, Heap.decay, hb]
    rwa [ha]
  | some b =>
    by_cases hl : b.liveness = .decayed
    · have ha : (Heap.decay id).after h = h := by simp [after, Heap.decay, hb, hl]
      rwa [ha]
    · have ha : (Heap.decay id).after h =
          h.setBuffer id { b.release with liveness := .decayed } := by
        simp [after, Heap.decay, hb, hl]
      rw [ha]
      apply hc.setBuffer hb
      · constructor
        · exact typed_of_empty b.elementKind
        · intro r _ hlive
          exact absurd rfl hlive
      · intro _ hlive
        exact absurd rfl hlive

/-- An operation that takes buffers out of their slots and advances. -/
theorem consistent_of_releases {op : Operation} (hop : op.releases = true) (ha : op.Advances h)
    (hc : h.Consistent R) : (op.after h).Consistent R := by
  apply hc.shrink (Heap.after_sound op hc.sound)
  · exact fun id hi => Heap.after_issued op ha hc.sound hi
  · exact fun id b hb => Operation.buffer?_of_releases hop hb

theorem respects_release (id : BufferId) (ha : (Operation.release id).Advances h)
    (hc : h.Consistent R) : Respects R h (Heap.release id) fun S _ _ => S = R := by
  refine ⟨R, R.le_refl, ?_, fun _ _ _ => rfl⟩
  have hop : (Operation.release id).after h = (Heap.release id).after h := after_of_silent rfl h
  rw [← hop]
  exact consistent_of_releases rfl ha hc

theorem respects_sweep (marked : BufferId → Bool) (ha : (Operation.sweep marked).Advances h)
    (hc : h.Consistent R) : Respects R h (Heap.sweep marked) fun S _ _ => S = R := by
  have hconsistent : ((Operation.sweep marked).after h).Consistent R :=
    consistent_of_releases rfl ha hc
  exact ⟨R, R.le_refl, hconsistent, fun _ _ _ => rfl⟩

theorem respects_intern (s : String) (hc : h.Consistent R) :
    Respects R h (Heap.intern s) fun S _ _ => S = R := by
  refine ⟨R, R.le_refl, ?_, fun _ _ _ => rfl⟩
  exact hc.shrink ⟨hc.sound.nodup, hc.sound.mem_free⟩ (fun _ hi => hi) fun _ _ hb => hb

theorem respects_edit {id : BufferId} {r : Role} {f : Buffer → Except Fault Buffer}
    (hc : h.Consistent R) (hr : R id = some r)
    (hf : ∀ b b', h.read id = .ok b → f b = .ok b' →
      Buffer.Edited (fun c => c.Typed R ∧ r.Admits c) b b' ∧
        (r = .pairlist → Even b'.stored.length) ∧ (R.Paired id → b.length = b'.length)) :
    Respects R h (edit id f) fun S _ _ => S = R := by
  refine ⟨R, R.le_refl, ?_, fun _ _ _ => rfl⟩
  cases he : h.writable id >>= f with
  | error e =>
    have ha : (edit id f).after h = h := by simp [after, edit, he]
    rwa [ha]
  | ok b' =>
    have ha : (edit id f).after h = h.setBuffer id b' := by simp [after, edit, he]
    obtain ⟨b, hw, hb'⟩ := bind_eq_ok_iff.1 he
    obtain ⟨hread, _⟩ := Heap.writable_eq_ok_iff.1 hw
    obtain ⟨hed, heven, hlen⟩ := hf b b' hread hb'
    obtain ⟨hb, hl⟩ := Heap.read_eq_ok_iff.1 hread
    rw [ha]
    apply hc.setBuffer hb (hc.accepts hr hread hed heven)
    intro hp _
    exact ⟨hl, hlen hp⟩

end HeapM

theorem Role.admits_of_isElement {r : Role} {k : Kind} {c : Cell} (hk : r.Backs k)
    (hc : c.isElement = true) : r.Admits c := by
  cases r with
  | text | bytes => trivial
  | list => exact hc
  | _ => exact hk.elim

namespace Series

def Tame (R : Roles) (k : Kind) (f : Buffer → Except Fault Buffer) : Prop :=
  ∀ r b b', Role.Backs r k → (∀ d ∈ b.stored, d.Typed R ∧ r.Admits d) → f b = .ok b' →
    Buffer.Edited (fun d => d.Typed R ∧ r.Admits d) b b'

theorem ensureMutable_eq_ok {c : Cell} {id : BufferId} (he : ensureMutable h c = .ok id) :
    ∃ i, c.payload = .series id i := by
  obtain ⟨⟨j, i⟩, hp, he⟩ := bind_eq_ok_iff.1 he
  have hji : j = id := by
    simp only [throw_eq_error, error_bind, ite_error_eq_ok_iff] at he
    obtain ⟨_, he⟩ := he
    obtain ⟨_, _, he⟩ := bind_eq_ok_iff.1 he
    cases he
    rfl
  subst hji
  unfold parts at hp
  split at hp <;> cases hp
  exact ⟨i, ‹_›⟩

variable {k : Kind}

theorem tame_insertCells {i : Buffer → Nat} {cs : List Cell} (hcs : ∀ c ∈ cs, c.Typed R) :
    Tame R k fun b => b.insertCells (i b) cs := by
  intro r b b' hk hb h
  apply Buffer.insertCells_edited h hb
  intro c hc he
  exact ⟨hcs c hc, Role.admits_of_isElement hk he⟩

theorem tame_setCell {i : Nat} {c : Cell} (hc : c.Typed R) : Tame R k (·.setCell i c) := by
  intro r b b' hk hb h
  apply Buffer.setCell_edited h hb
  intro he slot
  exact ⟨(Cell.copyInto_rehead c slot).typed hc, Role.admits_of_isElement hk he⟩

theorem tame_insertText {i : Buffer → Nat} {s : String} :
    Tame R k fun b => b.insertText (i b) s :=
  fun _ _ _ _ _ h => Buffer.insertText_edited h

theorem tame_insertBytes {i : Buffer → Nat} {bs : List UInt8} :
    Tame R k fun b => b.insertBytes (i b) bs :=
  fun _ _ _ _ _ h => Buffer.insertBytes_edited h

theorem tame_remove {i n : Nat} : Tame R k (·.remove i n) :=
  fun _ _ _ _ hb h => Buffer.remove_edited h hb

theorem tame_truncate {n : Nat} : Tame R k (·.truncate n) :=
  fun _ _ _ _ hb h => Buffer.truncate_edited h hb

end Series

namespace HeapM

theorem respects_series {c : Cell} {id : BufferId} {f : Buffer → Except Fault Buffer}
    (hc : h.Consistent R) (ht : c.Typed R) (hm : Series.ensureMutable h c = .ok id)
    (hf : Series.Tame R c.kind f) : Respects R h (edit id f) fun S _ _ => S = R := by
  obtain ⟨i, hp⟩ := Series.ensureMutable_eq_ok hm
  unfold Cell.Typed at ht
  rw [hp] at ht
  obtain ⟨r, hr, hk⟩ := ht
  apply respects_edit hc hr
  intro b b' hread hb'
  refine ⟨hf r b b' hk (hc.admitted hr hread) hb', ?_, ?_⟩
  · intro hpl
    subst hpl
    exact hk.elim
  · intro hpair
    rcases hpair with hpair | ⟨k, hpair⟩ <;> rw [hr] at hpair <;> cases hpair <;> exact hk.elim

theorem respects_editAt {c : Cell} {f : Nat → Buffer → Except Fault Buffer}
    (hc : h.Consistent R) (ht : c.Typed R) (hf : ∀ i, Series.Tame R c.kind (f i)) :
    Respects R h (Series.editAt c f) fun S _ _ => S = R := by
  apply respects_ofRead hc
  intro id hm
  apply respects_ofRead hc
  intro p _
  exact respects_series hc ht hm (hf p.2)

theorem respects_reserve {c : Cell} {n : Nat} (hc : h.Consistent R) (ht : c.Typed R) :
    Respects R h (Series.reserve c n) fun S _ _ => S = R := by
  apply respects_get
  apply respects_editAt hc ht
  intro i r b b' _ hk hb
  cases hb
  exact Buffer.reserve_edited _ hk

/-- A growing edit sets storage aside first. -/
theorem respects_grow {c : Cell} {n : Nat} {f : Nat → Buffer → Except Fault Buffer}
    (hc : h.Consistent R) (ht : c.Typed R) (hf : ∀ i, Series.Tame R c.kind (f i)) :
    Respects R h (do Series.reserve c n; Series.editAt c f) fun S _ _ => S = R := by
  apply (respects_reserve hc ht).then
  intro S h' _ _ hc' hS
  subst hS
  exact respects_editAt hc' ht hf

end HeapM

end CellHeap
