import CellHeap.Proofs.Heap.Handle
import CellHeap.Proofs.Protection.Account

/-!
# Whether protection follows a copy

A value read from a protected variable is protected itself. Stored in a new
buffer, put into a list or under a new key of a map, it is stored as it is, so
that a cell on which nobody has called for protection is then protected. The
main statement sets these ways to store a value against those that leave its
protection behind.
-/

set_option autoImplicit false

namespace CellHeap

open HeapM

def Operation.houses : Operation → Bool
  | allocateWith _ | makeList _ _ | makeSplice _ | makeSequence _ _ _ | makePair _ _
  | makePhase _ _ | makeParameter _ _ _ _ => true
  | _ => false

namespace Protection

open Heap

variable {h g : Heap} {id : BufferId}

theorem of_editAt {c : Cell} {i : Nat} {f : Nat → Buffer → Except Fault Buffer} {u : Unit}
    (hp : c.payload = .series id i) (hx : Series.editAt c f h = .ok u g) :
    edit id (f i) h = .ok u g := by
  obtain ⟨id', hm, hx⟩ := of_reading hx
  obtain ⟨⟨b, i'⟩, hc, hx⟩ := of_reading hx
  have hid : id' = id := by
    simp only [Series.ensureMutable, Series.parts, hp, ok_bind, throw_eq_error, error_bind,
      ite_error_eq_ok_iff, bind_eq_ok_iff] at hm
    obtain ⟨_, _, _, hm⟩ := hm
    exact (Except.ok.inj hm).symm
  have hi : i' = i := by
    simp only [Series.checked, Series.parts, hp, ok_bind, throw_eq_error, error_bind,
      ite_error_eq_ok_iff, bind_eq_ok_iff] at hc
    obtain ⟨_, _, _, hc⟩ := hc
    exact (Prod.mk.inj (Except.ok.inj hc)).2.symm
  subst hid hi
  exact hx

/-- Storage set aside beforehand holds no cells. -/
theorem of_grow {c : Cell} {i n : Nat} {f : Nat → Buffer → Except Fault Buffer} {u : Unit}
    (hp : c.payload = .series id i)
    (hx : (do Series.reserve c n; Series.editAt c f : HeapM Unit) h = .ok u g) :
    ∃ b b', h.locks id = b.locks ∧ f i b = .ok b' ∧ h.Relocked g id b'.locks := by
  obtain ⟨_, k, hreserve, hx⟩ := of_bind hx
  obtain ⟨h', _, hh', hreserve⟩ := of_bind hreserve
  cases hh'
  obtain ⟨b₀, b₁, hb₀, hb₁, hroom⟩ := relocked_of_edit (of_editAt hp hreserve)
  obtain ⟨b, b', hb, hb', hre⟩ := relocked_of_edit (of_editAt hp hx)
  have hsame : b₁.locks = b₀.locks := by
    cases hb₁
    rfl
  refine ⟨b, b', ?_, hb', hre.here, fun j hj => ?_⟩
  · rw [← hb, hroom.here, hsame, hb₀]
  · rw [hre.elsewhere j hj, hroom.elsewhere j hj]

/-- A variable is read with its protection. -/
theorem lock_of_read {c value : Cell} {key : Symbol} (hx : Context.read h c key = .ok value) :
    ∃ id i, Context.varlist c = .ok id ∧ Context.position h id key = .ok i ∧
      (h.locks id)[i]? = some value.isLocked := by
  obtain ⟨s, hslot, hvalue⟩ := bind_eq_ok_iff.1 hx
  cases hvalue
  obtain ⟨id, hv, hslot⟩ := bind_eq_ok_iff.1 hslot
  obtain ⟨i, hi, hslot⟩ := bind_eq_ok_iff.1 hslot
  obtain ⟨b, hr, hslot⟩ := bind_eq_ok_iff.1 hslot
  obtain ⟨vars, hb, hslot⟩ := bind_eq_ok_iff.1 hslot
  refine ⟨id, i, hv, hi, ?_⟩
  rw [locks_of_buffer? (buffer?_of_read hr), Buffer.locks, Buffer.cells_eq_ok hb,
    List.getElem?_map]
  cases hs : vars[i]? with
  | none =>
    rw [hs] at hslot
    cases hslot
  | some s' =>
    rw [hs] at hslot
    cases hslot
    rfl

section Maps

variable {m key value : Cell}

/-- A value under a key that is there takes the place of the old one; a new key and its value
are stored as they are. -/
theorem of_put {u : Unit} (hp : Map.pairlist m = .ok id) (hx : Map.put m key value h = .ok u g) :
    (∃ i, Map.find? h id key = .ok (some i) ∧ ∀ j, g.locks j = h.locks j) ∨
      Map.find? h id key = .ok none ∧
        h.Relocked g id (h.locks id ++ [key.isLocked, value.isLocked]) := by
  obtain ⟨id', hm, hx⟩ := of_checked hx
  cases (Map.checkMutable_eq_ok hm).symm.trans hp
  obtain ⟨_, _, hx⟩ := of_checked hx
  obtain ⟨o, ho, hx⟩ := of_reading hx
  cases o with
  | some i =>
    obtain ⟨b, b', hb, hb', hre⟩ := relocked_of_edit hx
    refine Or.inl ⟨i, ho, fun j => ?_⟩
    by_cases hj : j = id
    · rw [hj, hre.here, hb, Buffer.setCell_locks hb']
    · exact hre.elsewhere j hj
  | none =>
    obtain ⟨b, b', hb, hb', hre⟩ := relocked_of_edit hx
    refine Or.inr ⟨ho, ?_⟩
    rw [hb]
    exact Buffer.insertCells_length_locks hb' ▸ hre

theorem put_of_found {i : Nat} {u : Unit} (hp : Map.pairlist m = .ok id)
    (hf : Map.find? h id key = .ok (some i)) (hx : Map.put m key value h = .ok u g)
    (j : BufferId) : g.locks j = h.locks j := by
  rcases of_put hp hx with ⟨_, _, hsame⟩ | ⟨hnone, _⟩
  · exact hsame j
  · cases hf.symm.trans hnone

theorem put_of_absent {u : Unit} (hp : Map.pairlist m = .ok id)
    (hf : Map.find? h id key = .ok none) (hx : Map.put m key value h = .ok u g) :
    h.Relocked g id (h.locks id ++ [key.isLocked, value.isLocked]) := by
  rcases of_put hp hx with ⟨_, hsome, _⟩ | ⟨_, hre⟩
  · cases hf.symm.trans hsome
  · exact hre

/-- Of pairs put one by one, some are stored as they are, in their order. -/
theorem relocked_of_puts {u : Unit} (entries : List (Cell × Cell)) (hp : Map.pairlist m = .ok id)
    (hx : entries.forM (fun e => Map.put m e.1 e.2) h = .ok u g) :
    ∃ kept, kept.Sublist entries ∧
      h.Relocked g id (h.locks id ++ (Map.flatten kept).map Cell.isLocked) := by
  induction entries generalizing h with
  | nil =>
    obtain ⟨_, rfl⟩ := of_pure hx
    exact ⟨[], List.Sublist.refl _, by simp, fun _ _ => rfl⟩
  | cons e entries ih =>
    obtain ⟨_, k, hput, hx⟩ := of_bind hx
    obtain ⟨kept, hsub, hre⟩ := ih hx
    rcases of_put hp hput with ⟨_, _, hsame⟩ | ⟨_, hnew⟩
    · refine ⟨kept, hsub.cons e, ?_, fun j hj => ?_⟩
      · rw [hre.here, hsame]
      · rw [hre.elsewhere j hj, hsame]
    · refine ⟨e :: kept, hsub.cons_cons e, ?_, fun j hj => ?_⟩
      · rw [hre.here, hnew.here]
        simp
      · rw [hre.elsewhere j hj, hnew.elsewhere j hj]

/-- A map stores some of its pairs as they are, and always the first. -/
theorem relocked_of_make {entries : List (Cell × Cell)} (hs : h.Sound)
    (hx : Map.make entries h = .ok (.bare .map (.map id)) g) :
    ∃ kept, kept.Sublist entries ∧ kept.head? = entries.head? ∧
      h.Relocked g id ((Map.flatten kept).map Cell.isLocked) := by
  obtain ⟨id', k, hplace, hx⟩ := of_bind hx
  obtain ⟨_, k', hputs, hpure⟩ := of_bind hx
  obtain ⟨hc, rfl⟩ := of_pure hpure
  cases hc
  have hvessel := relocked_place hs hplace
  have hempty : k.locks id = [] := hvessel.here
  cases entries with
  | nil =>
    obtain ⟨_, rfl⟩ := of_pure hputs
    exact ⟨[], List.Sublist.refl _, rfl, hvessel⟩
  | cons e entries =>
    have hread := read_of_placed hs hplace (by simp [Buffer.toManaged])
    have hfind : Map.find? k id e.1 = .ok none := by
      simp [Map.find?, hread, Buffer.cells, Buffer.ofContents, Buffer.toManaged, Map.findFrom]
    obtain ⟨_, k'', hput, hputs⟩ := of_bind hputs
    have hfirst := put_of_absent rfl hfind hput
    obtain ⟨kept, hsub, hre⟩ := relocked_of_puts entries rfl hputs
    refine ⟨e :: kept, hsub.cons_cons e, rfl, ?_, fun j hj => ?_⟩
    · rw [hre.here, hfirst.here, hempty]
      simp
    · rw [hre.elsewhere j hj, hfirst.elsewhere j hj, hvessel.elsewhere j hj]

end Maps

section Housing

variable {α β : Type} {x : HeapM α} {p : α → Option BufferId} {q : β → Option BufferId}
variable {bits : List Bool}

def Houses (x : HeapM α) (p : α → Option BufferId) (bits : List Bool) : Prop :=
  ∀ h a g id, h.Sound → x h = .ok a g → p a = some id → h.Relocked g id bits

theorem houses_place (b : Buffer) : Houses (place b) some b.locks := by
  intro h a g id hs hx hid
  cases hid
  exact relocked_place hs hx

theorem Houses.map {f : α → β} (hx : Houses x p bits) (hf : ∀ a, q (f a) = p a) :
    Houses (f <$> x) q bits := by
  intro h b g id hs hb hid
  obtain ⟨a, ha, rfl⟩ := of_map hb
  exact hx h a g id hs ha (hf a ▸ hid)

theorem Houses.pure {f : α → β} (hx : Houses x p bits) (hf : ∀ a, q (f a) = p a) :
    Houses (x >>= fun a => Pure.pure (f a)) q bits := by
  intro h b g id hs hb hid
  obtain ⟨a, ha, rfl⟩ := of_wrap hb
  exact hx h a g id hs ha (hf a ▸ hid)

theorem houses_checked {e : Except Fault α} {f : α → HeapM β} (hf : ∀ a, Houses (f a) q bits) :
    Houses (check e >>= f) q bits := by
  intro h b g id hs hb hid
  obtain ⟨a, _, hb⟩ := of_checked hb
  exact hf a h b g id hs hb hid

theorem houses_list (k : Kind) (cs : List Cell) :
    Houses (Lists.make k cs) Cell.home? (cs.map Cell.isLocked) :=
  houses_checked fun _ => (houses_place _).pure fun _ => rfl

theorem houses_splice (cs : List Cell) :
    Houses (Lists.makeSplice cs) Cell.home? (cs.map Cell.isLocked) := by
  intro h c g id hs hx hid
  obtain ⟨d, k, hd, hsplice⟩ := of_bind hx
  obtain ⟨hc, rfl⟩ := of_ofRead hsplice
  have hhome : c.home? = d.home? := by
    simp only [Cell.home?, (Cell.toAntiform_rehead hc).references]
  exact houses_list .group cs h d g id hs hd (hhome ▸ hid)

theorem houses_store (k : Kind) (m : Compression) (es : List Cell) :
    Houses (Sequence.store m es) (fun s => (Cell.bare k (.sequence s)).home?)
      (es.map Cell.isLocked) := by
  intro h s g id hs hx hid
  rcases Sequence.store_apply m es h with ⟨t, ht, ha⟩ | ⟨a, b, rfl, ha⟩ | ha
  · rw [ha] at hx
    cases hx
    simp [Cell.home?, Sequence.references_of_inlineStorage? ht] at hid
  · have hpair : Houses (Storage.pair <$> Heap.allocateFrozen (.pairing a b))
        (fun s => (Cell.bare k (.sequence s)).home?) ([a, b].map Cell.isLocked) :=
      (houses_place _).map fun _ => rfl
    rw [ha] at hx
    exact hpair h s g id hs hx hid
  · have harray : Houses (Storage.array <$> Heap.allocateFrozen (.cells es))
        (fun s => (Cell.bare k (.sequence s)).home?) (es.map Cell.isLocked) :=
      (houses_place _).map fun _ => rfl
    rw [ha] at hx
    exact harray h s g id hs hx hid

/-- A sequence that is made holds the storage of its elements. -/
theorem store_of_make {k : Kind} {m : Compression} {es : List Cell} {c : Cell}
    (hx : Sequence.make k es m h = .ok (.ok c) g) :
    ∃ s, Sequence.store m es h = .ok s g ∧ c = .bare k (.sequence s) := by
  obtain ⟨h', _, hh', hx⟩ := of_bind hx
  cases hh'
  cases hv : Sequence.validate h k es with
  | error why =>
    rw [hv] at hx
    cases hx
  | ok _ =>
    rw [hv] at hx
    obtain ⟨s, hs, hc⟩ := of_wrap hx
    cases hc
    exact ⟨s, hs, rfl⟩

theorem houses_perform {op : Operation} (hop : op.houses = true) :
    Houses op.perform Answer.placed (op.wholesale.map Cell.isLocked) := by
  cases op with
  | allocateWith c => exact (houses_place (.ofContents c)).map fun _ => rfl
  | makeList k cs => exact (houses_list k cs).map fun _ => rfl
  | makeSplice cs => exact (houses_splice cs).map fun _ => rfl
  | makeSequence k es m =>
    intro h a g id hs hx hid
    obtain ⟨r, k', hr, hx⟩ := of_bind hx
    cases r with
    | error why =>
      obtain ⟨rfl, _⟩ := of_pure hx
      cases hid
    | ok c =>
      obtain ⟨rfl, rfl⟩ := of_pure hx
      obtain ⟨s, hstore, rfl⟩ := store_of_make hr
      exact houses_store k m es h s g id hs hstore hid
  | makePair x y =>
    have hpair : Houses (Pair.make x y) Cell.home? ([x, y].map Cell.isLocked) :=
      houses_checked fun _ => houses_checked fun _ => (houses_place _).pure fun _ => rfl
    exact hpair.map fun _ => rfl
  | makePhase l body =>
    have hphase : Houses (Frame.makePhase l body) some (body.map Cell.isLocked) :=
      houses_checked fun _ => houses_place _
    exact hphase.map fun _ => rfl
  | makeParameter m t f spec =>
    have hparam : Houses (Parameter.make m t f spec) Cell.home? (spec.map Cell.isLocked) :=
      houses_checked fun _ => (houses_place _).pure fun _ => rfl
    exact hparam.map fun _ => rfl
  | _ => simp [Operation.houses] at hop

theorem isLocked_of_isPristine {e : Cell} (he : Sequence.isPristine e = true) :
    e.isLocked = false := by
  simp only [Sequence.isPristine, Bool.and_eq_true, beq_iff_eq] at he
  rw [Cell.isLocked, he.1]
  rfl

theorem isLocked_of_byte? {e : Cell} {n : UInt8} (he : Sequence.byte? e = some n) :
    e.isLocked = false := by
  by_cases hp : Sequence.isPristine e = true
  · exact isLocked_of_isPristine hp
  · simp [Sequence.byte?, hp] at he

theorem isLocked_of_bytes? {es : List Cell} {bytes : List UInt8}
    (hx : es.mapM Sequence.byte? = some bytes) : ∀ e ∈ es, e.isLocked = false := by
  induction es generalizing bytes with
  | nil => simp
  | cons e es ih =>
    simp only [List.mapM_cons, Option.bind_eq_bind, Option.bind_eq_some_iff] at hx
    obtain ⟨n, he, ns, hes, _⟩ := hx
    exact List.forall_mem_cons.2 ⟨isLocked_of_byte? he, ih hes⟩

/-- The forms that need no buffer are not chosen for a protected cell. -/
theorem isLocked_of_inlineStorage? {es : List Cell} {limit : Nat} {s : Storage}
    (hs : Sequence.inlineStorage? es limit = some s) : ∀ e ∈ es, e.isLocked = false := by
  unfold Sequence.inlineStorage? at hs
  cases hb : Sequence.inlineBytes? es limit with
  | some b =>
    unfold Sequence.inlineBytes? at hb
    by_cases hlimit : limit < es.length
    · simp [hlimit] at hb
    · simp only [hlimit, if_false, Option.bind_eq_bind, Option.bind_eq_some_iff] at hb
      obtain ⟨bytes, hbytes, _⟩ := hb
      exact isLocked_of_bytes? hbytes
  | none =>
    simp only [hb] at hs
    unfold Sequence.wordStorage? at hs
    split at hs
    · rename_i x y
      by_cases hp : Sequence.isPristine x = true ∧ Sequence.isPristine y = true
      · simp [isLocked_of_isPristine hp.1, isLocked_of_isPristine hp.2]
      · simp [hp] at hs
    · cases hs

theorem sequence_without_buffer {k : Kind} {m : Compression} {es : List Cell} {c : Cell}
    (hx : Sequence.make k es m h = .ok (.ok c) g) (hc : c.home? = none) :
    g = h ∧ ∀ e ∈ es, e.isLocked = false := by
  obtain ⟨s, hstore, rfl⟩ := store_of_make hx
  rcases Sequence.store_apply m es h with ⟨t, ht, ha⟩ | ⟨a, b, rfl, ha⟩ | ha
  · cases ha.symm.trans hstore
    exact ⟨rfl, isLocked_of_inlineStorage? ht⟩
  · obtain ⟨_, _, rfl⟩ := of_map (ha.symm.trans hstore)
    cases hc
  · obtain ⟨_, _, rfl⟩ := of_map (ha.symm.trans hstore)
    cases hc

end Housing

structure Masks (h : Heap) : Prop where
  assigned : ∀ op : Operation, op.assigns = true → ∀ id, ∃ n,
    (op.after h).locks id = h.locks id ++ List.replicate n false
  replaced : ∀ m key value id i, Map.pairlist m = .ok id → Map.find? h id key = .ok (some i) →
    ∀ j, ((Operation.putEntry m key value).after h).locks j = h.locks j

theorem masks_of_sound (hs : h.Sound) : Masks h where
  assigned op hop id := by
    obtain ⟨_, hpads⟩ := shifts_of_traced Pads.refl (fun _ _ _ => Pads.trans)
      (traced_assigns hop) h hs
    rw [after_perform] at hpads
    exact hpads id
  replaced m key value id i hp hf j := by
    rw [after_of_silent (x := Map.put m key value) rfl h]
    cases hx : Map.put m key value h with
    | ok u g =>
      rw [after_of_ok hx]
      exact put_of_found hp hf hx j
    | error e g => rw [after_of_error hx, Map.atomic_put m key value h e g hx]

structure Carries (h : Heap) : Prop where
  read : ∀ c key value, Context.read h c key = .ok value →
    ∃ id i, Context.varlist c = .ok id ∧ Context.position h id key = .ok i ∧
      (h.locks id)[i]? = some value.isLocked
  called : ∀ c key on g, Context.setLocked c key on h = .ok () g →
    ∃ id i, Context.varlist c = .ok id ∧ Context.position h id key = .ok i ∧
      h.Relocked g id ((h.locks id).set i on)
  housed : ∀ (op : Operation) id, op.houses = true → op.returned h = some id →
    h.Relocked (op.after h) id (op.wholesale.map Cell.isLocked)
  inline : ∀ k es m c g, Sequence.make k es m h = .ok (.ok c) g → c.home? = none →
    g = h ∧ ∀ e ∈ es, e.isLocked = false
  inserted : ∀ c cs id i g, c.payload = .series id i → Series.insertCells c cs h = .ok () g →
    h.Relocked g id ((h.locks id).take i ++ cs.map Cell.isLocked ++ (h.locks id).drop i)
  appended : ∀ c cs id i g, c.payload = .series id i → Series.appendCells c cs h = .ok () g →
    h.Relocked g id (h.locks id ++ cs.map Cell.isLocked)
  put : ∀ m key value id g, Map.pairlist m = .ok id → Map.find? h id key = .ok none →
    Map.put m key value h = .ok () g →
      h.Relocked g id (h.locks id ++ [key.isLocked, value.isLocked])
  mapped : ∀ entries id g, Map.make entries h = .ok (.bare .map (.map id)) g →
    ∃ kept, kept.Sublist entries ∧ kept.head? = entries.head? ∧
      h.Relocked g id ((Map.flatten kept).map Cell.isLocked)

theorem carries_of_sound (hs : h.Sound) : Carries h where
  read _ _ _ hx := lock_of_read hx
  called _ _ _ _ hx := relocked_of_setLocked hx
  housed op id hop hr := by
    cases hx : op.perform h with
    | error e g =>
      simp only [Operation.returned, hx] at hr
      cases hr
    | ok a g =>
      simp only [Operation.returned, hx] at hr
      rw [← after_perform, after_of_ok hx]
      exact houses_perform hop h a g id hs hx hr
  inline _ _ _ _ _ hx hc := sequence_without_buffer hx hc
  inserted c cs id i g hp hx := by
    obtain ⟨b, b', hb, hb', hre⟩ := of_grow hp hx
    rw [hb]
    exact Buffer.insertCells_locks hb' ▸ hre
  appended c cs id i g hp hx := by
    obtain ⟨b, b', hb, hb', hre⟩ := of_grow hp hx
    rw [hb]
    exact Buffer.insertCells_length_locks hb' ▸ hre
  put _ _ _ _ _ hp hf hx := put_of_absent hp hf hx
  mapped _ _ _ hx := relocked_of_make hs hx

/-- Protection stays with a slot that is written and follows a value that is stored as it is.
After a run in which no protected value was stored so, a buffer has no more protected cells than
there were calls to protect one of its variables. -/
theorem protection_follows_whole_copies (config : Config) (before : List Operation) :
    let h := (Heap.new config).run before
    (∀ slot value d, Variable.assign slot value = .ok d ∨ Variable.assignMeta slot value = .ok d →
      d.isLocked = false) ∧ Masks h ∧ Carries h ∧
    ((∀ op ∈ before, ∀ v ∈ op.wholesale, v.isLocked = false) →
      ∀ id, (h.locks id).count true ≤ before.countP (·.protects id)) := by
  intro h
  have hs := reachable_sound config before
  refine ⟨?_, masks_of_sound hs, carries_of_sound hs, ?_⟩
  · rintro slot value d (hd | hd)
    · exact isLocked_of_assign hd
    · exact isLocked_of_assignMeta hd
  · intro hw id
    have hrun := run_locks_le before (sound_new config) hw id
    have hnew : (Heap.new config).locks id = [] := rfl
    rw [hnew, List.count_nil, Nat.zero_add] at hrun
    exact hrun

/-- One of two variables is protected. Its value, read and listed, is protected in the list. -/
theorem protection_follows_whole_copies_object :
    let object := Cell.bare .object (.context ⟨1, 0⟩)
    let ops := [.makeContext .object [(⟨0⟩, .integer 1), (⟨1⟩, .integer 2)],
      .lockVariable object ⟨0⟩ true, .writeVariable object ⟨1⟩ ((Cell.integer 1).setLocked true)]
    let h := (Heap.new {}).run ops
    let value := (Cell.integer 1).setLocked true
    let listing := Operation.makeList .block [value]
    (∀ op ∈ ops, ∀ v ∈ op.wholesale, v.isLocked = false) ∧ h.locks ⟨1, 0⟩ = [true, false] ∧
      (h.locks ⟨1, 0⟩).count true ≤ ops.countP (·.protects ⟨1, 0⟩) ∧
      Context.read h object ⟨0⟩ = .ok value ∧ listing.returned h = some ⟨2, 0⟩ ∧
      h.Relocked (listing.after h) ⟨2, 0⟩ [true] := by
  intro object ops h value listing
  have hops : ∀ op ∈ ops, ∀ v ∈ op.wholesale, v.isLocked = false := by
    simp [ops, Operation.wholesale]
  have hreturned : listing.returned h = some ⟨2, 0⟩ := by decide +kernel
  obtain ⟨_, _, hcarries, hcount⟩ := protection_follows_whole_copies {} ops
  exact ⟨hops, by decide +kernel, hcount hops ⟨1, 0⟩, by decide +kernel, hreturned,
    hcarries.housed listing ⟨2, 0⟩ rfl hreturned⟩

/-- The value of a protected variable does not leave its protection behind when it is listed. -/
theorem listed_value_protected : ¬ ∀ (config : Config) (ops : List Operation) (slot : Cell)
    (kind : Kind) (id : BufferId) (g : Heap), slot.isLocked = true →
      Lists.make kind [Variable.read slot] ((Heap.new config).run ops) =
        .ok (.bare kind (.series id 0)) g → true ∉ g.locks id := by
  intro hclaim
  let slot := (Cell.integer 1).setLocked true
  let g := (Lists.make .block [Variable.read slot]).after (Heap.new {})
  have hmake : Lists.make .block [Variable.read slot] ((Heap.new {}).run []) =
      .ok (.bare .block (.series ⟨0, 0⟩ 0)) g := HeapM.eq_ok_after (by decide +kernel)
  have hlocked : true ∈ g.locks ⟨0, 0⟩ := by decide +kernel
  exact hclaim {} [] slot .block ⟨0, 0⟩ g rfl hmake hlocked

end Protection

end CellHeap
