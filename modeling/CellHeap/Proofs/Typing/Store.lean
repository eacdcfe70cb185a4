import CellHeap.Proofs.Heap.Arena
import CellHeap.Proofs.Typing.Role

/-!
# Heaps that keep their roles

In a typed heap every buffer that can be read fits its role and every stored cell
is typed; the variables of a context and its keys are two buffers that belong
together and, in a consistent heap, have the same length. A computation respects
the roles if it leaves a consistent heap, whether it succeeds or not, possibly
with more roles given.
-/

set_option autoImplicit false

namespace CellHeap

def Roles.Paired (R : Roles) (id : BufferId) : Prop :=
  R id = some .keylist ∨ ∃ k, R id = some (.varlist k)

theorem Roles.not_paired {R : Roles} {id : BufferId} {r : Role} (hr : R id = some r)
    (hk : r ≠ .keylist) (hv : ∀ k, r ≠ .varlist k) : ¬ R.Paired id := by
  intro hp
  rcases hp with hp | ⟨k, hp⟩
  · rw [hr] at hp
    exact hk (Option.some.inj hp)
  · rw [hr] at hp
    exact hv k (Option.some.inj hp)

namespace Heap

structure Typed (R : Roles) (h : Heap) : Prop where
  sound : h.Sound
  issued : ∀ id r, R id = some r → h.Issued id
  fits : ∀ id r b, R id = some r → h.read id = .ok b → r.Fits b
  stored : ∀ id b, h.buffer? id = some b → ∀ c ∈ b.stored, c.Typed R
  keylist : ∀ v k, R v = some (.varlist k) → R k = some .keylist
  sole : ∀ v v' k, R v = some (.varlist k) → R v' = some (.varlist k) → v = v'

structure Consistent (R : Roles) (h : Heap) : Prop extends h.Typed R where
  parallel : ∀ v k bv bk, R v = some (.varlist k) → h.read v = .ok bv → h.read k = .ok bk →
    bv.length = bk.length

variable {R : Roles} {h h' : Heap} {id : BufferId} {b b' : Buffer}

structure Accepts (R : Roles) (id : BufferId) (b : Buffer) : Prop where
  stored : ∀ c ∈ b.stored, c.Typed R
  fits : ∀ r, R id = some r → b.liveness ≠ .decayed → r.Fits b

/-- A heap whose buffers were there before, or may stand where they are, is typed. -/
theorem Typed.transfer (ht : h.Typed R) (hs : h'.Sound) (hi : ∀ id, h.Issued id → h'.Issued id)
    (hb : ∀ id b, h'.buffer? id = some b → h.buffer? id = some b ∨ Accepts R id b) :
    h'.Typed R := by
  constructor
  · exact hs
  · intro id r hr
    exact hi id (ht.issued id r hr)
  · intro id r b hr hread
    obtain ⟨hbuf, hl⟩ := read_eq_ok_iff.1 hread
    rcases hb id b hbuf with hold | hacc
    · exact ht.fits id r b hr (read_eq_ok_iff.2 ⟨hold, hl⟩)
    · exact hacc.fits r hr hl
  · intro id b hbuf
    rcases hb id b hbuf with hold | hacc
    · exact ht.stored id b hold
    · exact hacc.stored
  · exact ht.keylist
  · exact ht.sole

/-- Lengths stay parallel if no buffer of variables or keys changes its length. -/
theorem Consistent.transfer (hc : h.Consistent R) (ht : h'.Typed R)
    (hl : ∀ id b, R.Paired id → h'.read id = .ok b → ∃ c, h.read id = .ok c ∧ c.length = b.length) :
    h'.Consistent R := by
  refine { toTyped := ht, parallel := ?_ }
  intro v k bv bk hv hrv hrk
  obtain ⟨cv, hcv, hlv⟩ := hl v bv (Or.inr ⟨k, hv⟩) hrv
  obtain ⟨ck, hck, hlk⟩ := hl k bk (Or.inl (hc.keylist v k hv)) hrk
  rw [← hlv, ← hlk]
  exact hc.parallel v k cv ck hv hcv hck

theorem not_paired_of_none (hr : R id = none) : ¬ R.Paired id := by
  intro hp
  rcases hp with hp | ⟨k, hp⟩ <;> rw [hr] at hp <;> cases hp

/-- A new buffer without a role yet. -/
theorem Consistent.place (hc : h.Consistent R) (hb : ∀ c ∈ b.stored, c.Typed R) :
    (h.place b).2.Consistent R ∧ R (h.place b).1 = none := by
  have hnone : R (h.place b).1 = none := by
    cases hr : R (h.place b).1 with
    | none => rfl
    | some r => exact absurd (hc.issued _ r hr) (not_issued_place hc.sound b)
  refine ⟨hc.transfer (hc.toTyped.transfer (sound_place hc.sound b) ?_ ?_) ?_, hnone⟩
  · intro id hi
    exact (issued_place hc.sound b id).2 (Or.inr hi)
  · intro id x hx
    rcases of_buffer?_place hc.sound hx with hnew | hold
    · obtain ⟨he, hxb⟩ := hnew
      subst he hxb
      refine Or.inr ⟨hb, ?_⟩
      intro r hr
      rw [hnone] at hr
      cases hr
    · exact Or.inl hold
  · intro id x hp hx
    obtain ⟨hxb, hl⟩ := read_eq_ok_iff.1 hx
    rcases of_buffer?_place hc.sound hxb with hnew | hold
    · rw [hnew.1] at hp
      exact absurd hp (not_paired_of_none hnone)
    · exact ⟨x, read_eq_ok_iff.2 ⟨hold, hl⟩, rfl⟩

theorem Typed.setBuffer (ht : h.Typed R) (hb : h.buffer? id = some b) (ha : Accepts R id b') :
    (h.setBuffer id b').Typed R := by
  apply ht.transfer (sound_setBuffer ht.sound hb b')
  · intro j hj
    exact (issued_setBuffer hb b' j).2 hj
  · intro j x hx
    rcases of_buffer?_setBuffer hb hx with hnew | hold
    · rw [hnew.1, hnew.2]
      exact Or.inr ha
    · exact Or.inl hold

theorem Consistent.setBuffer (hc : h.Consistent R) (hb : h.buffer? id = some b)
    (ha : Accepts R id b')
    (hl : R.Paired id → b'.liveness ≠ .decayed → b.liveness ≠ .decayed ∧ b.length = b'.length) :
    (h.setBuffer id b').Consistent R := by
  apply hc.transfer (hc.toTyped.setBuffer hb ha)
  intro j x hp hx
  obtain ⟨hxb, hlive⟩ := read_eq_ok_iff.1 hx
  rcases of_buffer?_setBuffer hb hxb with hnew | hold
  · obtain ⟨he, hxb'⟩ := hnew
    subst he hxb'
    obtain ⟨hlb, hlen⟩ := hl hp hlive
    exact ⟨b, read_eq_ok_iff.2 ⟨hb, hlb⟩, hlen⟩
  · exact ⟨x, read_eq_ok_iff.2 ⟨hold, hlive⟩, rfl⟩

/-- Buffers may be taken away. -/
theorem Consistent.shrink (hc : h.Consistent R) (hs : h'.Sound)
    (hi : ∀ id, h.Issued id → h'.Issued id)
    (hold : ∀ id b, h'.buffer? id = some b → h.buffer? id = some b) : h'.Consistent R := by
  refine hc.transfer (hc.toTyped.transfer hs hi ?_) ?_
  · intro j x hx
    exact Or.inl (hold j x hx)
  · intro j x _ hx
    obtain ⟨hxb, hl⟩ := read_eq_ok_iff.1 hx
    exact ⟨x, read_eq_ok_iff.2 ⟨hold j x hxb, hl⟩, rfl⟩

/-- Gives a role to a buffer that had none. -/
theorem Consistent.assign {r : Role} (hc : h.Consistent R) (hr : h.read id = .ok b)
    (hn : R id = none) (hf : r.Fits b)
    (hk : ∀ k, r = .varlist k → R k = some .keylist ∧ (∀ v, R v ≠ some (.varlist k)) ∧
      ∀ c, h.read k = .ok c → b.length = c.length) :
    h.Consistent (R.assign id r) := by
  have hle := Roles.le_assign r hn
  -- every role is the new one or was there before, and each part splits along this
  have hinv : ∀ j s, R.assign id r j = some s → j = id ∧ s = r ∨ R j = some s := by
    intro j s hj
    by_cases he : j = id
    · rw [he, Roles.assign_self] at hj
      exact Or.inl ⟨he, (Option.some.inj hj).symm⟩
    · rw [Roles.assign_of_ne R r he] at hj
      exact Or.inr hj
  refine { sound := hc.sound, issued := ?_, fits := ?_, stored := ?_, keylist := ?_, sole := ?_,
           parallel := ?_ }
  · intro j s hj
    rcases hinv j s hj with hnew | hold
    · rw [hnew.1]
      exact issued_of_buffer? (read_eq_ok_iff.1 hr).1
    · exact hc.issued j s hold
  · intro j s x hj hx
    rcases hinv j s hj with hnew | hold
    · obtain ⟨he, hs⟩ := hnew
      subst he hs
      rw [hr] at hx
      cases hx
      exact hf
    · exact hc.fits j s x hold hx
  · intro j x hx c hcx
    exact (hc.stored j x hx c hcx).mono hle
  · intro v k hv
    rcases hinv v _ hv with hnew | hold
    · exact hle k _ (hk k hnew.2.symm).1
    · exact hle k _ (hc.keylist v k hold)
  · intro v v' k hv hv'
    rcases hinv v _ hv with hnew | hold <;> rcases hinv v' _ hv' with hnew' | hold'
    · rw [hnew.1, hnew'.1]
    · exact absurd hold' ((hk k hnew.2.symm).2.1 v')
    · exact absurd hold ((hk k hnew'.2.symm).2.1 v)
    · exact hc.sole v v' k hold hold'
  · intro v k bv bk hv hrv hrk
    rcases hinv v _ hv with hnew | hold
    · rw [hnew.1, hr] at hrv
      cases hrv
      exact (hk k hnew.2.symm).2.2 bk hrk
    · exact hc.parallel v k bv bk hold hrv hrk

end Heap

namespace HeapM

variable {α β : Type} {R : Roles} {h : Heap} {Q : Roles → Heap → α → Prop}

/-- Leaves a consistent heap with at least the given roles; a result has the property `Q`. -/
def Respects (R : Roles) (h : Heap) (x : HeapM α) (Q : Roles → Heap → α → Prop) : Prop :=
  ∃ S, R.Le S ∧ (x.after h).Consistent S ∧ ∀ a h', x h = .ok a h' → Q S h' a

theorem Respects.then {x : HeapM α} {f : α → HeapM β} {P : Roles → Heap → β → Prop}
    (hx : Respects R h x Q)
    (hf : ∀ S h' a, R.Le S → h'.Consistent S → Q S h' a → Respects S h' (f a) P) :
    Respects R h (x >>= f) P := by
  obtain ⟨S, hle, hc, hq⟩ := hx
  cases he : x h with
  | ok a h' =>
    rw [after_of_ok he] at hc
    obtain ⟨T, hle', hc', hp⟩ := hf S h' a hle hc (hq a h' he)
    have hbind : (x >>= f) h = f a h' := by rw [bind_apply, he]
    refine ⟨T, hle.trans hle', ?_, ?_⟩
    · simpa only [after, hbind] using hc'
    · intro b g hb
      rw [hbind] at hb
      exact hp b g hb
  | error e h' =>
    have hbind : (x >>= f) h = .error e h' := by rw [bind_apply, he]
    refine ⟨S, hle, ?_, ?_⟩
    · rw [after_of_error he] at hc
      rwa [after_of_error hbind]
    · intro b g hb
      rw [hbind] at hb
      cases hb

/-- A read goes on in the same heap, with what was read. -/
theorem respects_ofRead {f : Heap → Except Fault α} {g : α → HeapM β}
    {P : Roles → Heap → β → Prop} (hc : h.Consistent R)
    (hg : ∀ a, f h = .ok a → Respects R h (g a) P) : Respects R h (ofRead f >>= g) P := by
  have hread : Respects R h (ofRead f) fun S h' a => S = R ∧ h' = h ∧ f h = .ok a := by
    refine ⟨R, R.le_refl, by simpa using hc, ?_⟩
    intro a h' ha
    obtain ⟨hfa, he⟩ := of_ofRead ha
    exact ⟨rfl, he, hfa⟩
  apply hread.then
  intro S h' a _ _ ha
  obtain ⟨hS, hh, hfa⟩ := ha
  subst hS hh
  exact hg a hfa

theorem respects_check {x : Except Fault α} {g : α → HeapM β} {P : Roles → Heap → β → Prop}
    (hc : h.Consistent R) (hg : ∀ a, x = .ok a → Respects R h (g a) P) :
    Respects R h (check x >>= g) P :=
  respects_ofRead hc hg

theorem respects_get {g : Heap → HeapM β} {P : Roles → Heap → β → Prop}
    (hg : Respects R h (g h) P) : Respects R h (get >>= g) P := hg

theorem respects_pure {a : α} (hc : h.Consistent R) (ha : Q R h a) :
    Respects R h (pure a) Q := by
  refine ⟨R, R.le_refl, hc, ?_⟩
  intro b h' hb
  obtain ⟨hba, he⟩ := of_pure hb
  subst hba he
  exact ha

theorem respects_throw (e : Fault) (hc : h.Consistent R) :
    Respects R h (throw e : HeapM α) Q :=
  ⟨R, R.le_refl, hc, fun _ _ ha => by cases ha⟩

theorem Respects.mono {x : HeapM α} {P : Roles → Heap → α → Prop} (hx : Respects R h x P)
    (hpq : ∀ S h' a, R.Le S → P S h' a → Q S h' a) : Respects R h x Q := by
  obtain ⟨S, hle, hc, hp⟩ := hx
  exact ⟨S, hle, hc, fun a h' ha => hpq S h' a hle (hp a h' ha)⟩

theorem Respects.map {x : HeapM α} {g : α → β} {P : Roles → Heap → β → Prop}
    (hx : Respects R h x fun S h' a => P S h' (g a)) : Respects R h (g <$> x) P := by
  obtain ⟨S, hle, hc, hp⟩ := hx
  refine ⟨S, hle, by simpa using hc, ?_⟩
  intro b h' hb
  obtain ⟨a, ha, hab⟩ := of_map hb
  subst hab
  exact hp a h' ha

theorem Respects.congr {x y : HeapM α} (he : x h = y h) (hy : Respects R h y Q) :
    Respects R h x Q := by
  obtain ⟨S, hle, hc, hq⟩ := hy
  refine ⟨S, hle, ?_, ?_⟩
  · rw [after_congr he]
    exact hc
  · rw [he]
    exact hq

theorem respects_forM {γ : Type} {f : γ → HeapM Unit} (xs : List γ) (hc : h.Consistent R)
    (hf : ∀ a ∈ xs, ∀ g, g.Consistent R → Respects R g (f a) fun S _ _ => S = R) :
    Respects R h (xs.forM f) fun S _ _ => S = R := by
  induction xs generalizing h with
  | nil => exact respects_pure hc rfl
  | cons a xs ih =>
    apply (hf a (by simp) h hc).then
    intro S h' _ _ hc' hS
    subst hS
    exact ih hc' fun b hb => hf b (by simp [hb])

end HeapM

end CellHeap
