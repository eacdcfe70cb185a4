import CellHeap.Proofs.Typing.Edits

/-!
# Contexts respect the roles of their buffers

The variables of a context and its keys are two buffers of the same length. A
write changes one variable and no length. Adding a variable changes both buffers:
the keys grow first, and once they have grown the variables cannot fail to.
-/

set_option autoImplicit false

namespace CellHeap

open HeapM

variable {R : Roles} {h : Heap} {c : Cell}

theorem Context.varlist_role {v : BufferId} (ht : c.Typed R) (hv : varlist c = .ok v) :
    ∃ k, R v = some (.varlist k) := by
  unfold varlist at hv
  unfold Cell.Typed at ht
  cases hp : c.payload with
  | context x =>
    rw [hp] at hv ht
    cases hv
    exact ht.2
  | frame x l =>
    rw [hp] at hv ht
    cases hv
    exact ht.2
  | _ =>
    rw [hp] at hv
    cases hv

theorem Buffer.length_modifySlot {b b' : Buffer} {i : Nat} {f : Cell → Except Fault Cell}
    (hb : b.modifySlot i f = .ok b') : b.length = b'.length := by
  obtain ⟨cs, old, new, hcs, _, _, he⟩ := modifySlot_eq_ok hb
  subst he
  simp [length, withContents, hcs, Contents.length]

/-- A variable is replaced by one that is typed and stable. -/
theorem respects_modify {key : Symbol} {f : Cell → Except Fault Cell} (hc : h.Consistent R)
    (ht : c.Typed R)
    (hf : ∀ old new, old.Typed R → old.isUnstable = false → f old = .ok new →
      new.Typed R ∧ new.isUnstable = false) :
    Respects R h (Context.modify c key f) fun S _ _ => S = R := by
  unfold Context.modify
  by_cases hconst : c.isConst = true
  · simp only [hconst, if_true]
    exact respects_throw _ hc
  simp only [hconst, Bool.false_eq_true, if_false]
  apply respects_check hc
  intro v hv
  obtain ⟨k, hr⟩ := Context.varlist_role ht hv
  apply respects_ofRead hc
  intro i _
  apply respects_edit hc hr
  intro b b' hread hb'
  have hold : ∀ d ∈ b.stored, d.Typed R ∧ d.isUnstable = false := hc.admitted hr hread
  refine ⟨?_, by simp, fun _ => Buffer.length_modifySlot hb'⟩
  apply Buffer.modifySlot_edited hb' hold
  intro old hmem new hnew
  exact hf old new (hold old hmem).1 (hold old hmem).2 hnew

theorem respects_write {key : Symbol} {value : Cell} (hc : h.Consistent R) (ht : c.Typed R)
    (hv : value.Typed R) : Respects R h (Context.write c key value) fun S _ _ => S = R := by
  apply respects_modify hc ht
  intro old new _ _ hnew
  refine ⟨(Cell.assign_rehead hnew).typed hv, ?_⟩
  obtain ⟨_, _, hnew⟩ := bind_eq_ok_iff.1 hnew
  obtain ⟨_, hs, hnew⟩ := bind_eq_ok_iff.1 hnew
  cases hnew
  exact Variable.checkStable_eq_ok hs

theorem respects_writeMeta {key : Symbol} {value : Cell} (hc : h.Consistent R) (ht : c.Typed R)
    (hv : value.Typed R) : Respects R h (Context.writeMeta c key value) fun S _ _ => S = R := by
  apply respects_modify hc ht
  intro old new _ _ hnew
  refine ⟨(Cell.assignMeta_rehead hnew).typed hv, ?_⟩
  obtain ⟨_, _, hnew⟩ := bind_eq_ok_iff.1 hnew
  obtain ⟨lifted, hl, hnew⟩ := bind_eq_ok_iff.1 hnew
  cases hnew
  have hcopy : (lifted.copyInto old).isUnstable = lifted.isUnstable := rfl
  rw [hcopy]
  simp [Cell.isUnstable, Cell.isAntiform_of_toMeta hl]

theorem respects_setLocked {key : Symbol} {on : Bool} (hc : h.Consistent R) (ht : c.Typed R) :
    Respects R h (Context.setLocked c key on) fun S _ _ => S = R := by
  apply respects_modify hc ht
  intro old new hold hs hnew
  cases hnew
  exact ⟨Cell.Rehead.typed ⟨rfl, rfl⟩ hold, hs⟩

namespace Buffer

theorem length_pushSlot {b b' : Buffer} {d : Cell} (hb : b.pushSlot d = .ok b') :
    b'.length = b.length + 1 := by
  obtain ⟨cs, hcs, he⟩ := pushSlot_eq_ok hb
  subst he
  simp [length, withContents, hcs, Contents.length]

theorem pushSlot_of_varlist {b : Buffer} {k : BufferId} (hs : (Role.varlist k).Shape b)
    (d : Cell) : ∃ b', b.pushSlot d = .ok b' := by
  obtain ⟨hkind, _, hsize⟩ := hs
  unfold elementKind at hkind
  cases hc : b.contents with
  | cells cs =>
    refine ⟨b.withContents (.cells (cs ++ [d])), ?_⟩
    simp [pushSlot, checkResizable, hsize, array, hc]
  | bytes | text | pairing =>
    rw [hc] at hkind
    cases hkind

end Buffer

/-- A key and a variable added together keep keys and variables parallel. -/
theorem consistent_push {v k : BufferId} {bv bv' bk bk' : Buffer} {value : Cell} {key : Symbol}
    (hc : h.Consistent R) (hr : R v = some (.varlist k)) (hread : h.read v = .ok bv)
    (hkread : h.read k = .ok bk) (hk : bk.pushSlot (.word key) = .ok bk')
    (hv : bv.pushSlot value = .ok bv') (ht : value.Typed R) (hs : value.isUnstable = false) :
    ((h.setBuffer k bk').setBuffer v bv').Consistent R := by
  have hrk : R k = some .keylist := hc.keylist v k hr
  have hne : v ≠ k := by
    intro he
    rw [he, hrk] at hr
    cases hr
  obtain ⟨hb, _⟩ := Heap.read_eq_ok_iff.1 hread
  obtain ⟨hkb, _⟩ := Heap.read_eq_ok_iff.1 hkread
  have hkt : (h.setBuffer k bk').Typed R := by
    apply hc.toTyped.setBuffer hkb
    apply hc.accepts hrk hkread _ (by simp)
    exact Buffer.pushSlot_edited hk (hc.admitted hrk hkread) ⟨rfl, key, rfl⟩
  have hvb : (h.setBuffer k bk').buffer? v = some bv := by
    rw [Heap.buffer?_setBuffer hkb, if_neg hne, hb]
  have hvt : ((h.setBuffer k bk').setBuffer v bv').Typed R := by
    apply hkt.setBuffer hvb
    apply hc.accepts hr hread _ (by simp)
    exact Buffer.pushSlot_edited hv (hc.admitted hr hread) ⟨ht, hs⟩
  have hlook : ∀ j, ((h.setBuffer k bk').setBuffer v bv').buffer? j =
      if j = v then some bv' else if j = k then some bk' else h.buffer? j := by
    intro j
    rw [Heap.buffer?_setBuffer hvb, Heap.buffer?_setBuffer hkb]
  refine { toTyped := hvt, parallel := ?_ }
  intro w l bw bl hw hrw hrl
  obtain ⟨hbw, hlw⟩ := Heap.read_eq_ok_iff.1 hrw
  obtain ⟨hbl, hll⟩ := Heap.read_eq_ok_iff.1 hrl
  have hrl' : R l = some .keylist := hc.keylist w l hw
  have hlv : l ≠ v := by
    intro he
    rw [he, hr] at hrl'
    cases hrl'
  have hwk : w ≠ k := by
    intro he
    rw [he, hrk] at hw
    cases hw
  rw [hlook] at hbw hbl
  by_cases hwv : w = v
  · -- the two buffers that have grown
    subst hwv
    rw [hr] at hw
    cases hw
    simp only [if_true, if_neg hlv, Option.some.injEq] at hbw hbl
    subst hbw hbl
    rw [Buffer.length_pushSlot hv, Buffer.length_pushSlot hk, hc.parallel w k bv bk hr hread hkread]
  · -- another context, whose keys are not these
    have hlk : l ≠ k := by
      intro he
      subst he
      exact hwv (hc.sole w v l hw hr)
    simp only [if_neg hwv, if_neg hwk, if_neg hlv, if_neg hlk] at hbw hbl
    exact hc.parallel w l bw bl hw (Heap.read_eq_ok_iff.2 ⟨hbw, hlw⟩)
      (Heap.read_eq_ok_iff.2 ⟨hbl, hll⟩)

theorem respects_push {v k : BufferId} {bv : Buffer} {value : Cell} {key : Symbol}
    (hc : h.Consistent R) (hr : R v = some (.varlist k)) (hw : h.writable v = .ok bv)
    (ht : value.Typed R) (hs : value.isUnstable = false) :
    Respects R h (do
      HeapM.edit k (·.pushSlot (.word key))
      HeapM.edit v (·.pushSlot value)) fun S _ _ => S = R := by
  refine ⟨R, R.le_refl, ?_, fun _ _ _ => rfl⟩
  obtain ⟨hread, _⟩ := Heap.writable_eq_ok_iff.1 hw
  cases he : h.writable k >>= (·.pushSlot (.word key)) with
  | error e =>
    have hk : HeapM.edit k (·.pushSlot (.word key)) h = .error e h := by simp [HeapM.edit, he]
    have ha : (do
        HeapM.edit k (·.pushSlot (.word key))
        HeapM.edit v (·.pushSlot value)).after h = h := by
      simp only [after, bind_apply, hk]
    rwa [ha]
  | ok bk' =>
    obtain ⟨bk, hkw, hkpush⟩ := bind_eq_ok_iff.1 he
    obtain ⟨hkread, _⟩ := Heap.writable_eq_ok_iff.1 hkw
    obtain ⟨bv', hvpush⟩ := Buffer.pushSlot_of_varlist (hc.fits v _ bv hr hread).shape value
    have hne : v ≠ k := by
      intro heq
      have hrk := hc.keylist v k hr
      rw [← heq, hr] at hrk
      cases hrk
    have hvw : (h.setBuffer k bk').writable v = .ok bv := by
      obtain ⟨hb, hl⟩ := Heap.read_eq_ok_iff.1 hread
      apply Heap.writable_eq_ok_iff.2
      refine ⟨Heap.read_eq_ok_iff.2 ⟨?_, hl⟩, (Heap.writable_eq_ok_iff.1 hw).2⟩
      rw [Heap.buffer?_setBuffer (Heap.read_eq_ok_iff.1 hkread).1, if_neg hne, hb]
    have hkedit : HeapM.edit k (·.pushSlot (.word key)) h = .ok () (h.setBuffer k bk') :=
      edit_of_writable hkw hkpush
    have hvedit : HeapM.edit v (·.pushSlot value) (h.setBuffer k bk') =
        .ok () ((h.setBuffer k bk').setBuffer v bv') := edit_of_writable hvw hvpush
    have ha : (do
        HeapM.edit k (·.pushSlot (.word key))
        HeapM.edit v (·.pushSlot value)).after h = (h.setBuffer k bk').setBuffer v bv' := by
      simp only [after, bind_apply, hkedit, hvedit]
    rw [ha]
    exact consistent_push hc hr hread hkread hkpush hvpush ht hs

theorem fresh_typed {value : Cell} (hv : value.Typed R) : (Variable.fresh value).Typed R :=
  (Cell.copyInto_rehead value .trash).typed hv

theorem respects_append {key : Symbol} {value : Cell} (hc : h.Consistent R) (ht : c.Typed R)
    (hv : value.Typed R) : Respects R h (Context.append c key value) fun S _ _ => S = R := by
  apply respects_ofRead hc
  intro present _
  cases present with
  | true => exact respects_write hc ht hv
  | false =>
    by_cases hconst : c.isConst = true
    · simp only [hconst, Bool.false_eq_true, if_false, if_true]
      exact respects_throw _ hc
    simp only [hconst, Bool.false_eq_true, if_false]
    apply respects_check hc
    intro _ hstable
    apply respects_check hc
    intro v hvar
    obtain ⟨k, hr⟩ := Context.varlist_role ht hvar
    apply respects_ofRead hc
    intro k' hk'
    obtain ⟨b, hb, hkeys⟩ := Context.keylist_eq_ok hk'
    -- the keys found are those that the role names
    have hkk : k' = k := by
      have hshape := (hc.fits v _ b hr hb).shape
      rw [hshape.2.1] at hkeys
      exact (Option.some.inj hkeys).symm
    subst hkk
    apply respects_ofRead hc
    intro bv hw
    exact respects_push hc hr hw (fresh_typed hv) (Variable.checkStable_eq_ok hstable)

theorem slot_of_table {vars : List (Symbol × Cell)} {u : Unit} {d : Cell}
    (hv : ∀ v ∈ vars.map (·.2), v.Typed R)
    (hs : (vars.forM fun (_, v) => Variable.checkStable v) = .ok u)
    (hd : d ∈ (Context.table vars).map (·.2)) : d.Typed R ∧ d.isUnstable = false := by
  obtain ⟨v, hmem, hdv⟩ := mem_table hd
  obtain ⟨kv, hkv, hv2⟩ := List.mem_map.1 hmem
  subst hdv
  refine ⟨fresh_typed (hv v hmem), ?_⟩
  have hstable := Variable.checkStable_eq_ok (forM_eq_ok hs kv hkv)
  rw [hv2] at hstable
  exact hstable

/-- Variables and keys made for a new context. -/
theorem respects_makeVarlist {vars : List (Symbol × Cell)} (hc : h.Consistent R)
    (hv : ∀ v ∈ vars.map (·.2), v.Typed R) :
    Respects R h (Context.makeVarlist vars) fun S _ id => ∃ k, S id = some (.varlist k) := by
  apply respects_check hc
  intro u hstable
  have hslot : ∀ d ∈ (Context.table vars).map (·.2), d.Typed R ∧ d.isUnstable = false :=
    fun d hd => slot_of_table hv hstable hd
  generalize Context.table vars = t at hslot
  have hword : ∀ d ∈ t.map (fun (k, _) => Cell.word k), ∃ s, d = .word s := by
    intro d hd
    obtain ⟨kv, _, hdk⟩ := List.mem_map.1 hd
    exact ⟨kv.1, hdk.symm⟩
  have hkeys : Respects R h (Heap.allocateManaged (.cells (t.map fun (k, _) => .word k)))
      fun S h' id => R id = none ∧ S = R.assign id .keylist ∧
        h'.read id = .ok (Buffer.ofContents (.cells (t.map fun (k, _) => .word k))).toManaged := by
    apply respects_place hc
    · intro d hd
      obtain ⟨s, hds⟩ := hword d hd
      subst hds
      exact rfl
    · simp [Buffer.toManaged]
    · exact ⟨rfl, hword⟩
    · simp
  apply hkeys.then
  intro S h' k hle hc' hk
  obtain ⟨hnone, hS, hread⟩ := hk
  apply Respects.mono
  · apply respects_place (r := .varlist k) hc'
    · intro d hd
      exact ((hslot d hd).1).mono hle
    · simp [Buffer.toManaged]
    · exact ⟨⟨rfl, rfl, rfl⟩, fun d hd => (hslot d hd).2⟩
    · intro l hl
      cases hl
      refine ⟨by rw [hS, Roles.assign_self], ?_, ?_⟩
      · -- the keys are new, so no older context can have them
        intro v hrole
        rw [hS] at hrole
        by_cases hvk : v = k
        · rw [hvk, Roles.assign_self] at hrole
          cases hrole
        · rw [Roles.assign_of_ne R _ hvk] at hrole
          have hkey := hc.keylist v k hrole
          rw [hnone] at hkey
          cases hkey
      · intro b hb
        rw [hread] at hb
        cases hb
        simp [Buffer.length, Buffer.toManaged, Buffer.ofContents, Contents.length]
  · intro T _ id _ hid
    exact ⟨k, by rw [hid.2.1, Roles.assign_self]⟩

end CellHeap
