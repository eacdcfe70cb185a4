import CellHeap.Heap.Basic
import Mathlib.Logic.Relation

/-!
# Outcomes of computations

How a computation that can fail is taken apart into its steps, and how a
computation on a heap moves the heap. A computation is traced by a relation on
heaps if every run of it, failed or not, is a chain of that relation.
-/

set_option autoImplicit false

namespace CellHeap

section Except

variable {ε α β : Type}

theorem bind_eq_ok_iff {x : Except ε α} {f : α → Except ε β} {b : β} :
    (x >>= f) = .ok b ↔ ∃ a, x = .ok a ∧ f a = .ok b := by
  cases x <;> simp [bind, Except.bind]

theorem bind_eq_error_iff {x : Except ε α} {f : α → Except ε β} {e : ε} :
    (x >>= f) = .error e ↔ x = .error e ∨ ∃ a, x = .ok a ∧ f a = .error e := by
  cases x <;> simp [bind, Except.bind]

@[simp] theorem ok_bind (a : α) (f : α → Except ε β) : ((.ok a : Except ε α) >>= f) = f a := rfl

@[simp] theorem error_bind (e : ε) (f : α → Except ε β) :
    ((.error e : Except ε α) >>= f) = .error e := rfl

@[simp] theorem pure_eq_ok (a : α) : (pure a : Except ε α) = .ok a := rfl

@[simp] theorem throw_eq_error (e : ε) : (throw e : Except ε α) = .error e := rfl

theorem ite_error_eq_ok_iff {p : Prop} [Decidable p] {e : ε} {x : Except ε α} {a : α} :
    (if p then .error e else x) = .ok a ↔ ¬ p ∧ x = .ok a := by
  by_cases hp : p <;> simp [hp]

theorem forM_eq_ok {f : α → Except ε PUnit} {l : List α} {u : PUnit} (hl : l.forM f = .ok u) :
    ∀ a ∈ l, f a = .ok () := by
  induction l with
  | nil => simp
  | cons b l ih =>
    obtain ⟨_, hb, hrest⟩ := bind_eq_ok_iff.1 hl
    intro a ha
    rcases List.mem_cons.1 ha with hab | hmem
    · rw [hab]
      exact hb
    · exact ih hrest a hmem

theorem forM_of_forall {f : α → Except ε PUnit} {l : List α} (hl : ∀ a ∈ l, f a = .ok ()) :
    l.forM f = .ok () := by
  induction l with
  | nil => rfl
  | cons b l ih =>
    rw [List.forall_mem_cons] at hl
    exact bind_eq_ok_iff.2 ⟨(), hl.1, ih hl.2⟩

end Except

namespace HeapM

variable {α β : Type}

def after (x : HeapM α) (h : Heap) : Heap :=
  match x h with
  | .ok _ h' => h'
  | .error _ h' => h'

theorem after_of_ok {x : HeapM α} {h h' : Heap} {a : α} (hx : x h = .ok a h') : x.after h = h' := by
  simp [after, hx]

def value? (x : HeapM α) (h : Heap) : Option α :=
  match x h with
  | .ok a _ => some a
  | .error _ _ => none

theorem eq_ok_after {x : HeapM α} {h : Heap} {a : α} (hx : x.value? h = some a) :
    x h = .ok a (x.after h) := by
  cases hr : x h with
  | ok b h' =>
    simp only [value?, hr, Option.some.injEq] at hx
    rw [after_of_ok hr, hx]
  | error e h' =>
    simp only [value?, hr] at hx
    cases hx

theorem after_congr {x y : HeapM α} {h : Heap} (he : x h = y h) : x.after h = y.after h := by
  simp only [after, he]

theorem after_of_error {x : HeapM α} {h h' : Heap} {e : Fault} (hx : x h = .error e h') :
    x.after h = h' := by
  simp [after, hx]

theorem bind_apply (x : HeapM α) (f : α → HeapM β) (h : Heap) :
    (x >>= f) h = match x h with
      | .ok a h' => f a h'
      | .error e h' => .error e h' := by
  simp only [bind, EStateM.bind]
  cases x h <;> rfl

theorem get_apply (h : Heap) : (get : HeapM Heap) h = .ok h h := rfl

@[simp] theorem after_ofRead (f : Heap → Except Fault α) (h : Heap) : (ofRead f).after h = h := by
  cases hf : f h <;> simp [after, ofRead, hf]

@[simp] theorem after_check (x : Except Fault α) (h : Heap) : (check x).after h = h :=
  after_ofRead _ h

@[simp] theorem after_pure (a : α) (h : Heap) : (pure a : HeapM α).after h = h := rfl

@[simp] theorem after_throw (e : Fault) (h : Heap) : (throw e : HeapM α).after h = h := rfl

@[simp] theorem after_map (g : α → β) (x : HeapM α) (h : Heap) : (g <$> x).after h = x.after h := by
  simp only [after, Functor.map, EStateM.map]
  cases x h <;> rfl

theorem after_wrap (g : α → β) (x : HeapM α) (h : Heap) :
    (do return g (← x) : HeapM β).after h = x.after h := by
  unfold after
  rw [bind_apply]
  cases x h <;> rfl

theorem of_bind {x : HeapM α} {f : α → HeapM β} {h h' : Heap} {b : β}
    (hx : (x >>= f) h = .ok b h') : ∃ a g, x h = .ok a g ∧ f a g = .ok b h' := by
  rw [bind_apply] at hx
  split at hx
  · exact ⟨_, _, ‹_›, hx⟩
  · cases hx

theorem of_bind_error {x : HeapM α} {f : α → HeapM β} {h h' : Heap} {e : Fault}
    (hx : (x >>= f) h = .error e h') :
    x h = .error e h' ∨ ∃ a g, x h = .ok a g ∧ f a g = .error e h' := by
  rw [bind_apply] at hx
  cases hr : x h with
  | ok a g =>
    rw [hr] at hx
    exact Or.inr ⟨a, g, rfl, hx⟩
  | error e' g =>
    rw [hr] at hx
    cases hx
    exact Or.inl rfl

theorem of_map_error {x : HeapM α} {g : α → β} {h h' : Heap} {e : Fault}
    (hx : (g <$> x) h = .error e h') : x h = .error e h' := by
  simp only [Functor.map, EStateM.map] at hx
  cases hr : x h with
  | ok a k =>
    rw [hr] at hx
    cases hx
  | error e' k =>
    rw [hr] at hx
    cases hx
    rfl

theorem of_map {x : HeapM α} {g : α → β} {h h' : Heap} {b : β}
    (hx : (g <$> x) h = .ok b h') : ∃ a, x h = .ok a h' ∧ g a = b := by
  simp only [Functor.map, EStateM.map] at hx
  split at hx <;> cases hx
  exact ⟨_, ‹_›, rfl⟩

theorem of_pure {a b : α} {h h' : Heap} (hx : (pure a : HeapM α) h = .ok b h') :
    b = a ∧ h' = h := by
  cases hx
  exact ⟨rfl, rfl⟩

theorem of_ofRead {f : Heap → Except Fault α} {h h' : Heap} {a : α}
    (hx : ofRead f h = .ok a h') : f h = .ok a ∧ h' = h := by
  simp only [ofRead] at hx
  split at hx <;> cases hx
  exact ⟨‹_›, rfl⟩

theorem of_place {b : Buffer} {h h' : Heap} {id : BufferId} (hx : place b h = .ok id h') :
    id = (h.place b).1 ∧ h' = (h.place b).2 := by
  cases hx
  exact ⟨rfl, rfl⟩

/-- A value around what a computation gives. -/
theorem of_wrap {x : HeapM α} {g : α → β} {h h' : Heap} {b : β}
    (hx : (do return g (← x)) h = .ok b h') : ∃ a, x h = .ok a h' ∧ b = g a := by
  obtain ⟨a, k, ha, hb⟩ := of_bind hx
  obtain ⟨rfl, rfl⟩ := of_pure hb
  exact ⟨a, ha, rfl⟩

/-- A computation whose first step only reads. -/
theorem of_reading {f : Heap → Except Fault α} {g : α → HeapM β} {h h' : Heap} {b : β}
    (hx : (ofRead f >>= g) h = .ok b h') : ∃ a, f h = .ok a ∧ g a h = .ok b h' := by
  obtain ⟨a, k, ha, hb⟩ := of_bind hx
  obtain ⟨hf, rfl⟩ := of_ofRead ha
  exact ⟨a, hf, hb⟩

theorem of_checked {x : Except Fault α} {f : α → HeapM β} {h h' : Heap} {b : β}
    (hx : (check x >>= f) h = .ok b h') : ∃ a, x = .ok a ∧ f a h = .ok b h' :=
  of_reading hx

theorem of_edit {id : BufferId} {f : Buffer → Except Fault Buffer} {h h' : Heap} {u : Unit}
    (hx : edit id f h = .ok u h') :
    ∃ b b', h.writable id = .ok b ∧ f b = .ok b' ∧ h' = h.setBuffer id b' := by
  unfold edit at hx
  cases hw : h.writable id >>= f with
  | ok b' =>
    rw [hw] at hx
    obtain ⟨b, hb, hf⟩ := bind_eq_ok_iff.1 hw
    cases hx
    exact ⟨b, b', hb, hf, rfl⟩
  | error e =>
    rw [hw] at hx
    cases hx

theorem edit_of_writable {id : BufferId} {b b' : Buffer} {f : Buffer → Except Fault Buffer}
    {h : Heap} (hw : h.writable id = .ok b) (hf : f b = .ok b') :
    edit id f h = .ok () (h.setBuffer id b') := by
  simp [edit, hw, hf]

theorem reading_of_ok {f : Heap → Except Fault α} {h : Heap} {a : α} (hf : f h = .ok a)
    (g : α → HeapM β) : (ofRead f >>= g) h = g a h := by
  simp [bind_apply, ofRead, hf]

theorem checked_of_ok {x : Except Fault α} {a : α} (hx : x = .ok a) (f : α → HeapM β) (h : Heap) :
    (check x >>= f) h = f a h :=
  reading_of_ok hx f

theorem reading_of_error {f : Heap → Except Fault α} {h : Heap} {e : Fault} (hf : f h = .error e)
    (g : α → HeapM β) : (ofRead f >>= g) h = .error e h := by
  simp [bind_apply, ofRead, hf]

theorem checked_of_error {x : Except Fault α} {e : Fault} (hx : x = .error e) (f : α → HeapM β)
    (h : Heap) : (check x >>= f) h = .error e h :=
  reading_of_error hx f

def Atomic (x : HeapM α) : Prop := ∀ h e h', x h = .error e h' → h' = h

theorem atomic_pure (a : α) : Atomic (pure a : HeapM α) := by
  intro h e h' hx
  cases hx

theorem atomic_throw (e : Fault) : Atomic (throw e : HeapM α) := by
  intro h e' h' hx
  cases hx
  rfl

theorem atomic_edit (id : BufferId) (f : Buffer → Except Fault Buffer) : Atomic (edit id f) := by
  intro h e h' hx
  unfold edit at hx
  cases hw : h.writable id >>= f <;> rw [hw] at hx <;> cases hx
  rfl

theorem atomic_reading {f : Heap → Except Fault α} {g : α → HeapM β} (hg : ∀ a, Atomic (g a)) :
    Atomic (ofRead f >>= g) := by
  intro h e h' hx
  rw [bind_apply] at hx
  cases hf : f h with
  | ok a =>
    simp only [ofRead, hf] at hx
    exact hg a h e h' hx
  | error e' =>
    simp only [ofRead, hf] at hx
    cases hx
    rfl

theorem atomic_checked {x : Except Fault α} {f : α → HeapM β} (hf : ∀ a, Atomic (f a)) :
    Atomic (check x >>= f) :=
  atomic_reading hf

theorem Atomic.map {x : HeapM α} (hx : Atomic x) (g : α → β) : Atomic (do return g (← x)) := by
  intro h e h' he
  rw [bind_apply] at he
  cases hr : x h with
  | ok a k =>
    rw [hr] at he
    cases he
  | error e' k =>
    rw [hr] at he
    cases he
    exact hx h e h' hr

def Traced (S : Heap → Heap → Prop) (x : HeapM α) : Prop :=
  ∀ h, Relation.ReflTransGen S h (x.after h)

variable {S : Heap → Heap → Prop}

theorem traced_of_unchanged {x : HeapM α} (hx : ∀ h, x.after h = h) : Traced S x := by
  intro h
  rw [hx]

theorem traced_step {x : HeapM α} (hx : ∀ h, x.after h = h ∨ S h (x.after h)) : Traced S x := by
  intro h
  rcases hx h with he | hs
  · rw [he]
  · exact .single hs

theorem chain_bind {x : HeapM α} {f : α → HeapM β} {h : Heap}
    (hx : Relation.ReflTransGen S h (x.after h))
    (hf : ∀ a h', x h = .ok a h' → Relation.ReflTransGen S h' ((f a).after h')) :
    Relation.ReflTransGen S h ((x >>= f).after h) := by
  cases he : x h with
  | ok a h' =>
    rw [after_of_ok he] at hx
    have hb : (x >>= f).after h = (f a).after h' := by simp [after, bind_apply, he]
    rw [hb]
    exact hx.trans (hf a h' he)
  | error e h' =>
    rw [after_of_error he] at hx
    have hb : (x >>= f).after h = h' := by simp [after, bind_apply, he]
    rw [hb]
    exact hx

theorem Traced.bind {x : HeapM α} {f : α → HeapM β} (hx : Traced S x)
    (hf : ∀ h a h', x h = .ok a h' → Relation.ReflTransGen S h' ((f a).after h')) :
    Traced S (x >>= f) :=
  fun h => chain_bind (hx h) (hf h)

theorem Traced.then {x : HeapM α} {f : α → HeapM β} (hx : Traced S x)
    (hf : ∀ a, Traced S (f a)) : Traced S (x >>= f) :=
  hx.bind fun _ a h' _ => hf a h'

theorem Traced.map {x : HeapM α} (g : α → β) (hx : Traced S x) : Traced S (g <$> x) := by
  intro h
  rw [after_map]
  exact hx h

theorem traced_ofRead (f : Heap → Except Fault α) : Traced S (ofRead f) :=
  traced_of_unchanged (after_ofRead f)

theorem traced_check (x : Except Fault α) : Traced S (check x) :=
  traced_of_unchanged (after_check x)

/-- A check tells what follows that it has passed. -/
theorem traced_checked {x : Except Fault α} {f : α → HeapM β}
    (hf : ∀ a, x = .ok a → Traced S (f a)) : Traced S (check x >>= f) :=
  (traced_check x).bind fun _ a h' hx => hf a (of_ofRead hx).1 h'

theorem traced_pure (a : α) : Traced S (pure a) := traced_of_unchanged (after_pure a)

theorem traced_forM {γ : Type} {f : γ → HeapM Unit} (xs : List γ) (hf : ∀ a ∈ xs, Traced S (f a)) :
    Traced S (xs.forM f) := by
  induction xs with
  | nil => exact traced_pure ()
  | cons a xs ih =>
    exact (hf a (by simp)).then fun _ => ih fun b hb => hf b (by simp [hb])

end HeapM

end CellHeap
