import CellHeap.Proofs.Refusal.Mutation

/-!
# Closed views and frozen buffers

An edit goes through a cell: a view of a series, a map or a context. Two gates
stand before it, the view may be read-only and the buffer behind it may be frozen.
Edits pass them by different routes and at different moments, after a search for
a key or before storage is set aside, but always before the first write. So a gate
that is closed refuses every edit, one that would change nothing included. Only
the removal of a key that is not there does not come to the second gate.
-/

set_option autoImplicit false

namespace CellHeap

namespace HeapM

variable {α β : Type} {h : Heap}

def Denied (x : HeapM α) (h : Heap) : Prop := ∃ e, x h = .error e h

theorem denied_throw (e : Fault) : Denied (throw e : HeapM α) h := ⟨e, rfl⟩

theorem Denied.bind {x : HeapM α} (hx : Denied x h) (f : α → HeapM β) : Denied (x >>= f) h := by
  obtain ⟨e, he⟩ := hx
  refine ⟨e, ?_⟩
  rw [bind_apply, he]

theorem Denied.map {x : HeapM α} (hx : Denied x h) (g : α → β) : Denied (g <$> x) h := by
  obtain ⟨e, he⟩ := hx
  refine ⟨e, ?_⟩
  simp only [Functor.map, EStateM.map, he]

/-- A reading denies what follows unless it succeeds. -/
theorem denied_reading {f : Heap → Except Fault α} {g : α → HeapM β}
    (hg : ∀ a, f h = .ok a → Denied (g a) h) : Denied (ofRead f >>= g) h := by
  cases hf : f h with
  | ok a =>
    obtain ⟨e, he⟩ := hg a hf
    exact ⟨e, (reading_of_ok hf g).trans he⟩
  | error e => exact ⟨e, reading_of_error hf g⟩

theorem denied_checked {x : Except Fault α} {f : α → HeapM β}
    (hf : ∀ a, x = .ok a → Denied (f a) h) : Denied (check x >>= f) h :=
  denied_reading hf

end HeapM

open HeapM

namespace Heap

def Sealed (h : Heap) (id : BufferId) : Prop := ∃ b, h.buffer? id = some b ∧ b.frozen = true

theorem Sealed.writable {h : Heap} {id : BufferId} (hs : h.Sealed id) {b : Buffer} :
    h.writable id ≠ .ok b := by
  intro hw
  obtain ⟨b', hb', hz⟩ := hs
  obtain ⟨hr, hz'⟩ := writable_eq_ok_iff.1 hw
  cases hb'.symm.trans (buffer?_of_read hr)
  exact absurd (hz.symm.trans hz') (by decide)

theorem sealed_of_any {h : Heap} {id : BufferId} (hb : (h.buffer? id).any (·.frozen) = true) :
    h.Sealed id :=
  (Option.any_eq_true _ _).1 hb

theorem Sealed.denied_edit {h : Heap} {id : BufferId} (hs : h.Sealed id)
    (f : Buffer → Except Fault Buffer) : Denied (edit id f) h := by
  unfold Denied edit
  cases hw : h.writable id with
  | ok b => exact absurd hw hs.writable
  | error e => exact ⟨e, rfl⟩

end Heap

namespace Series

variable {h : Heap} {c : Cell}

def Closed (h : Heap) (c : Cell) : Prop := ∀ id, ensureMutable h c ≠ .ok id

theorem closed_of_const (hc : c.isConst = true) : Closed h c := by
  intro id hm
  obtain ⟨p, _, hm⟩ := bind_eq_ok_iff.1 hm
  simp [hc] at hm

theorem closed_of_sealed {p : BufferId × Nat} (hp : parts c = .ok p) (hs : h.Sealed p.1) :
    Closed h c := by
  intro id hm
  obtain ⟨q, hq, hm⟩ := bind_eq_ok_iff.1 hm
  cases hp.symm.trans hq
  by_cases hc : c.isConst = true
  · simp [hc] at hm
  · simp only [hc, Bool.false_eq_true, if_false] at hm
    obtain ⟨b, hw, _⟩ := bind_eq_ok_iff.1 hm
    exact hs.writable hw

theorem Closed.denied_editAt (hc : Closed h c) (f : Nat → Buffer → Except Fault Buffer) :
    Denied (editAt c f) h :=
  denied_reading fun id hm => absurd hm (hc id)

/-- Nothing is set aside for an edit that is not let through. -/
theorem Closed.denied_grow (hc : Closed h c) (n : Nat) (f : Nat → Buffer → Except Fault Buffer) :
    Denied (reserve c n >>= fun _ => editAt c f) h := by
  have hreserve : Denied (reserve c n) h := by
    unfold Denied
    rw [reserve_apply]
    exact hc.denied_editAt _
  exact hreserve.bind _

theorem Closed.denied_truncate (hc : Closed h c) (n : Nat) : Denied (truncate c n) h :=
  denied_reading fun id hm => absurd hm (hc id)

end Series

namespace Context

variable {h : Heap} {c : Cell} {id : BufferId}

def Closed (h : Heap) (c : Cell) : Prop :=
  c.isConst = true ∨ ∃ id, varlist c = .ok id ∧ h.Sealed id

theorem Closed.denied_modify (hc : Closed h c) (key : Symbol) (f : Cell → Except Fault Cell) :
    Denied (modify c key f) h := by
  unfold modify
  by_cases hconst : c.isConst = true
  · simp only [hconst, if_true]
    exact denied_throw _
  · obtain ⟨id, hv, hs⟩ := hc.resolve_left hconst
    simp only [hconst, Bool.false_eq_true, if_false]
    refine denied_checked fun v hv' => denied_reading fun i _ => ?_
    cases hv.symm.trans hv'
    exact hs.denied_edit _

/-- A key that is there is written, a new one is pushed; both come to the gates first. -/
theorem Closed.denied_append (hc : Closed h c) (key : Symbol) (value : Cell) :
    Denied (append c key value) h := by
  refine denied_reading fun known _ => ?_
  cases known with
  | true => exact hc.denied_modify key _
  | false =>
    by_cases hconst : c.isConst = true
    · simp only [hconst, Bool.false_eq_true, if_false, if_true]
      exact denied_throw _
    · obtain ⟨id, hv, hs⟩ := hc.resolve_left hconst
      simp only [hconst, Bool.false_eq_true, if_false]
      refine denied_checked fun _ _ => denied_checked fun v hv' => denied_reading fun k _ => ?_
      cases hv.symm.trans hv'
      exact denied_reading fun b hw => absurd hw hs.writable

end Context

namespace Map

variable {h : Heap} {c key : Cell} {id : BufferId}

def Absent (h : Heap) (id : BufferId) (key : Cell) : Prop :=
  ∃ b cs, h.read id = .ok b ∧ b.cells = .ok cs ∧
    ∀ i k, cs[2 * i]? = some k → keysEqual h k key = .ok false

/-- The keys of a list are its first cell and the keys behind the first pair. -/
theorem forall_key_cons {P : Cell → Prop} (k : Cell) (rest : List Cell) :
    (∀ i d, (k :: rest)[2 * i]? = some d → P d) ↔
      P k ∧ ∀ i d, (rest.drop 1)[2 * i]? = some d → P d := by
  have hnext : ∀ i, (k :: rest)[2 * (i + 1)]? = (rest.drop 1)[2 * i]? := by
    intro i
    rw [show 2 * (i + 1) = (1 + 2 * i) + 1 by omega, List.getElem?_cons_succ, List.getElem?_drop]
  constructor
  · intro hall
    refine ⟨hall 0 k rfl, fun i d hd => hall (i + 1) d ?_⟩
    rw [hnext, hd]
  · rintro ⟨hk, hrest⟩ i d hd
    cases i with
    | zero =>
      cases hd
      exact hk
    | succ i =>
      rw [hnext] at hd
      exact hrest i d hd

/-- The search passes over a list exactly if it passes over the keys in it. -/
theorem findFrom_eq_none_iff (h : Heap) (key : Cell) (j : Nat) (cs : List Cell) :
    findFrom h key j cs = .ok none ↔
      ∀ i k, cs[2 * i]? = some k → keysEqual h k key = .ok false := by
  induction hn : cs.length using Nat.strong_induction_on generalizing j cs with
  | _ n ih =>
    rcases cs with _ | ⟨k, rest⟩
    · simp [findFrom]
    · rw [forall_key_cons]
      rcases rest with _ | ⟨v, rest⟩
      · cases hk : keysEqual h k key with
        | error e => simp [findFrom, hk]
        | ok found => cases found <;> simp [findFrom, hk]
      · have hlt : rest.length < n := by
          rw [← hn, List.length_cons, List.length_cons]
          omega
        have hrest := ih rest.length hlt (j + 2) rest rfl
        cases hk : keysEqual h k key with
        | error e => simp [findFrom, hk]
        | ok found => cases found <;> simp [findFrom, hk, hrest]

theorem find?_eq_none_iff : find? h id key = .ok none ↔ Absent h id key := by
  simp only [find?, Absent, bind_eq_ok_iff, findFrom_eq_none_iff]
  constructor
  · rintro ⟨b, hr, cs, hcs, hall⟩
    exact ⟨b, cs, hr, hcs, hall⟩
  · rintro ⟨b, cs, hr, hcs, hall⟩
    exact ⟨b, hr, cs, hcs, hall⟩

theorem checkMutable_of_const (hc : c.isConst = true) : checkMutable c = .error .constView := by
  simp [checkMutable, hc]

theorem denied_of_const {α : Type} (hc : c.isConst = true) (f : BufferId → HeapM α) :
    Denied (check (checkMutable c) >>= f) h :=
  ⟨_, checked_of_error (checkMutable_of_const hc) f h⟩

theorem denied_put_of_sealed (hp : pairlist c = .ok id) (hs : h.Sealed id) (key value : Cell) :
    Denied (put c key value) h := by
  refine denied_checked fun v hm => denied_checked fun _ _ => denied_reading fun o _ => ?_
  cases hp.symm.trans (checkMutable_eq_ok hm)
  cases o with
  | some i => exact hs.denied_edit _
  | none => exact hs.denied_edit _

theorem denied_remove_of_sealed (hp : pairlist c = .ok id) (hs : h.Sealed id)
    (hk : ¬ Absent h id key) : Denied (remove c key) h := by
  refine denied_checked fun v hm => denied_reading fun o hf => ?_
  cases hp.symm.trans (checkMutable_eq_ok hm)
  cases o with
  | none => exact absurd (find?_eq_none_iff.1 hf) hk
  | some i => exact (hs.denied_edit _).bind _

theorem remove_of_absent (hp : pairlist c = .ok id) (hc : c.isConst = false)
    (hk : Absent h id key) : remove c key h = .ok false h := by
  have hm : checkMutable c = .ok id := by simp [checkMutable, hc, hp]
  unfold remove
  rw [checked_of_ok hm, reading_of_ok (find?_eq_none_iff.2 hk)]
  rfl

end Map

namespace Operation

def aim? : Operation → Option (Cell × Except Fault BufferId)
  | appendCells c _ | insertCells c _ | changeCell c _ _ | appendText c _ | insertText c _
  | appendBytes c _ | removeAt c _ | truncateAt c | truncate c _ =>
    some (c, Prod.fst <$> Series.parts c)
  | putEntry c _ _ | removeEntry c _ => some (c, Map.pairlist c)
  | writeVariable c _ _ | writeVariableMeta c _ _ | appendVariable c _ _ | lockVariable c _ _ =>
    some (c, Context.varlist c)
  | _ => none

structure Gated (h : Heap) (op : Operation) (c : Cell) (target : Except Fault BufferId) :
    Prop where
  const : c.isConst = true → Denied op.perform h
  frozen : ∀ id, target = .ok id → h.Sealed id →
    (∀ key, op = .removeEntry c key → ¬ Map.Absent h id key) → Denied op.perform h
  /-- The one edit that needs no write. -/
  absent : ∀ id key, target = .ok id → h.Sealed id → op = .removeEntry c key →
    c.isConst = false → Map.Absent h id key → op.perform h = .ok (.truth false) h

section Gates

variable {h : Heap} {op : Operation} {c : Cell}

theorem gated_series (hop : ∀ d key, op ≠ .removeEntry d key)
    (hx : Series.Closed h c → Denied op.perform h) :
    Gated h op c (Prod.fst <$> Series.parts c) where
  const hc := hx (Series.closed_of_const hc)
  frozen id ht hs _ := by
    cases hp : Series.parts c with
    | error e =>
      rw [hp] at ht
      cases ht
    | ok p =>
      rw [hp] at ht
      cases ht
      exact hx (Series.closed_of_sealed hp hs)
  absent _ key _ _ he := absurd he (hop c key)

theorem gated_context (hop : ∀ d key, op ≠ .removeEntry d key)
    (hx : Context.Closed h c → Denied op.perform h) : Gated h op c (Context.varlist c) where
  const hc := hx (Or.inl hc)
  frozen id ht hs _ := hx (Or.inr ⟨id, ht, hs⟩)
  absent _ key _ _ he := absurd he (hop c key)

theorem gated_put (c key value : Cell) : Gated h (.putEntry c key value) c (Map.pairlist c) where
  const hc := (Map.denied_of_const hc _).bind _
  frozen id ht hs _ := (Map.denied_put_of_sealed ht hs key value).bind _
  absent _ _ _ _ he := by cases he

theorem gated_remove (c key : Cell) : Gated h (.removeEntry c key) c (Map.pairlist c) where
  const hc := (Map.denied_of_const hc _).map _
  frozen id ht hs hk := (Map.denied_remove_of_sealed ht hs (hk key rfl)).map _
  absent id key' ht _ he hc hk := by
    cases he
    simp only [perform, Functor.map, EStateM.map, Map.remove_of_absent ht hc hk]

end Gates

/-- Whatever the heap and the arguments, an edit through a read-only view fails and changes
nothing, and so does an edit of a frozen buffer, except that the removal of an absent key from a
frozen map answers that it was not there. -/
theorem closed_gates_deny (h : Heap) (op : Operation) {c : Cell} {target : Except Fault BufferId}
    (hop : op.aim? = some (c, target)) : Gated h op c target := by
  cases op with
  | appendCells d cs | insertCells d cs | appendText d s | insertText d s | appendBytes d bs =>
    cases hop
    exact gated_series (fun _ _ => by simp) fun hc => (hc.denied_grow _ _).bind _
  | changeCell d n v | removeAt d n | truncateAt d =>
    cases hop
    exact gated_series (fun _ _ => by simp) fun hc => (hc.denied_editAt _).bind _
  | truncate d n =>
    cases hop
    exact gated_series (fun _ _ => by simp) fun hc => (hc.denied_truncate n).bind _
  | putEntry d k v =>
    cases hop
    exact gated_put _ k v
  | removeEntry d k =>
    cases hop
    exact gated_remove _ k
  | writeVariable d k v | writeVariableMeta d k v | lockVariable d k on =>
    cases hop
    exact gated_context (fun _ _ => by simp) fun hc => (hc.denied_modify k _).bind _
  | appendVariable d k v =>
    cases hop
    exact gated_context (fun _ _ => by simp) fun hc => (hc.denied_append k v).bind _
  | _ => cases hop

/-- Edits that would change nothing: none appended to a read-only list, an old key written again
in a frozen object, a key removed from a frozen map that has it and one that it has not. -/
theorem closed_gates_deny_idle :
    let list := (Cell.bare .block (.series ⟨0, 0⟩ 0)).setConst true
    let map := Cell.bare .map (.map ⟨1, 0⟩)
    let object := Cell.bare .object (.context ⟨3, 0⟩)
    let h := (Heap.new {}).run [.intern "a", .makeList .block [],
      .makeMap [(.integer 1, .blank)], .makeContext .object [(⟨0⟩, .blank)],
      .freeze ⟨1, 0⟩, .freeze ⟨3, 0⟩]
    Denied (appendCells list []).perform h ∧
      Denied (appendVariable object ⟨0⟩ .blank).perform h ∧
      Denied (removeEntry map (.integer 1)).perform h ∧
      (removeEntry map (.integer 2)).perform h = .ok (.truth false) h := by
  intro list map object h
  have hmap : h.Sealed ⟨1, 0⟩ := Heap.sealed_of_any (by decide +kernel)
  have hobject : h.Sealed ⟨3, 0⟩ := Heap.sealed_of_any (by decide +kernel)
  have hpresent : ¬ Map.Absent h ⟨1, 0⟩ (.integer 1) := by
    rw [← Map.find?_eq_none_iff]
    decide +kernel
  have habsent : Map.Absent h ⟨1, 0⟩ (.integer 2) := by
    rw [← Map.find?_eq_none_iff]
    decide +kernel
  refine ⟨(closed_gates_deny h _ rfl).const rfl,
    (closed_gates_deny h _ rfl).frozen ⟨3, 0⟩ rfl hobject ?_,
    (closed_gates_deny h _ rfl).frozen ⟨1, 0⟩ rfl hmap ?_,
    (closed_gates_deny h _ rfl).absent ⟨1, 0⟩ _ rfl hmap rfl rfl habsent⟩
  · intro key he
    cases he
  · intro key he
    cases he
    exact hpresent

end Operation

end CellHeap
