import CellHeap.Proofs.Map.Pairlist
import CellHeap.Proofs.Typing.Contexts
import CellHeap.Proofs.Typing.Readers

/-!
# Operations respect the roles of buffers

Every operation on typed cells leaves a consistent heap and gives typed cells
back, so in every session the cells in hand and the cells in buffers are typed.
-/

set_option autoImplicit false

namespace CellHeap

open HeapM

variable {R : Roles} {h : Heap} {c : Cell}

theorem Map.pairlist_role {id : BufferId} (ht : c.Typed R) (hp : pairlist c = .ok id) :
    R id = some .pairlist := by
  unfold pairlist at hp
  split at hp <;> cases hp
  rename_i hm
  unfold Cell.Typed at ht
  rw [hm] at ht
  exact ht.2

/-- A key is found at an even distance from the start of the search. -/
theorem Map.findFrom_eq_some {key : Cell} {i j : Nat} {cs : List Cell}
    (hf : findFrom h key j cs = .ok (some i)) : ∃ m, i = j + 2 * m ∧ i < j + cs.length := by
  fun_induction findFrom h key j cs with
  | case1 j => cases hf
  | case2 j k =>
    obtain ⟨found, _, hf⟩ := bind_eq_ok_iff.1 hf
    cases found with
    | true =>
      cases hf
      exact ⟨0, rfl, by simp⟩
    | false => cases hf
  | case3 j k v rest ih =>
    obtain ⟨found, _, hf⟩ := bind_eq_ok_iff.1 hf
    cases found with
    | true =>
      cases hf
      exact ⟨0, rfl, by simp⟩
    | false =>
      obtain ⟨m, hm, hlt⟩ := ih hf
      refine ⟨m + 1, by omega, ?_⟩
      simp only [List.length_cons]
      omega

theorem Map.find?_eq_some {key : Cell} {i : Nat} {id : BufferId} {b : Buffer}
    (hr : h.read id = .ok b) (hf : find? h id key = .ok (some i)) :
    Even i ∧ i < b.stored.length := by
  obtain ⟨b', hr', hf⟩ := bind_eq_ok_iff.1 hf
  rw [hr] at hr'
  cases hr'
  obtain ⟨cs, hcs, hf⟩ := bind_eq_ok_iff.1 hf
  obtain ⟨m, hm, hlt⟩ := findFrom_eq_some hf
  rw [Buffer.cells_eq_ok hcs]
  exact ⟨⟨m, by omega⟩, by omega⟩

namespace Buffer

variable {b b' : Buffer}

theorem length_stored_setCell {i : Nat} {d : Cell} (hb : b.setCell i d = .ok b') :
    b'.stored.length = b.stored.length := by
  obtain ⟨_, ⟨cs, old, hcs, _, rfl⟩ | ⟨x, y, hxy, rfl | rfl⟩⟩ := setCell_eq_ok hb
  · simp [stored, withContents, hcs, Contents.stored]
  · simp [stored, withContents, hxy, Contents.stored]
  · simp [stored, withContents, hxy, Contents.stored]

theorem length_stored_insertCells {i : Nat} {new : List Cell} (hb : b.insertCells i new = .ok b') :
    b'.stored.length = b.stored.length + new.length := by
  obtain ⟨cs, hcs, hi, _, rfl⟩ := insertCells_eq_ok hb
  simp only [stored, withContents, hcs, Contents.stored, List.length_append, List.length_take,
    List.length_drop]
  omega

/-- Removing a key with its value keeps the length even. -/
theorem even_stored_remove {i : Nat} (hb : b.remove i 2 = .ok b')
    (he : Even b.stored.length) (hi : Even i) (hlt : i < b.stored.length) :
    Even b'.stored.length := by
  obtain ⟨bs, bs', hbs, rfl⟩ | ⟨s, t, hs, rfl⟩ | ⟨cs, hcs, rfl⟩ | ⟨_, rfl⟩ := remove_eq_ok hb
  · simp [stored, withContents, Contents.stored]
  · simp [stored, withContents, Contents.stored]
  · rw [stored_of_cells hcs] at he hlt
    obtain ⟨m, hm⟩ := he
    obtain ⟨n, hn⟩ := hi
    simp only [stored, withContents, Contents.stored, List.length_append, List.length_take,
      List.length_drop]
    exact ⟨m - 1, by omega⟩
  · exact he

end Buffer

theorem respects_put {key value : Cell} (hc : h.Consistent R) (ht : c.Typed R)
    (hk : key.Typed R) (hv : value.Typed R) :
    Respects R h (Map.put c key value) fun S _ _ => S = R := by
  apply respects_check hc
  intro id hm
  have hr := Map.pairlist_role ht (Map.checkMutable_eq_ok hm)
  have hnot : ¬ R.Paired id := Roles.not_paired hr (by simp) (by simp)
  apply respects_check hc
  intro _ _
  apply respects_ofRead hc
  intro found _
  cases found with
  | some i =>
    apply respects_edit hc hr
    intro b b' hread hb'
    refine ⟨?_, ?_, fun hp => absurd hp hnot⟩
    · apply Buffer.setCell_edited hb' (hc.admitted hr hread)
      intro he slot
      exact ⟨(Cell.copyInto_rehead value slot).typed hv, he⟩
    · intro _
      rw [Buffer.length_stored_setCell hb']
      exact (hc.fits id _ b hr hread).shape.2
  | none =>
    apply respects_edit hc hr
    intro b b' hread hb'
    refine ⟨?_, ?_, fun hp => absurd hp hnot⟩
    · apply Buffer.insertCells_edited hb' (hc.admitted hr hread)
      intro d hd he
      simp only [List.mem_cons, List.not_mem_nil, or_false] at hd
      rcases hd with hd | hd <;> subst hd
      · exact ⟨hk, he⟩
      · exact ⟨hv, he⟩
    · intro _
      rw [Buffer.length_stored_insertCells hb']
      obtain ⟨m, hlen⟩ := (hc.fits id _ b hr hread).shape.2
      exact ⟨m + 1, by simp only [List.length_cons, List.length_nil]; omega⟩

theorem respects_remove {key : Cell} (hc : h.Consistent R) (ht : c.Typed R) :
    Respects R h (Map.remove c key) fun S _ _ => S = R := by
  apply respects_check hc
  intro id hm
  have hr := Map.pairlist_role ht (Map.checkMutable_eq_ok hm)
  apply respects_ofRead hc
  intro found hfound
  cases found with
  | none => exact respects_pure hc rfl
  | some i =>
    have hedit : Respects R h (HeapM.edit id (·.remove i 2)) fun S _ _ => S = R := by
      apply respects_edit hc hr
      intro b b' hread hb'
      refine ⟨Buffer.remove_edited hb' (hc.admitted hr hread), ?_, ?_⟩
      · intro _
        obtain ⟨hi, hlt⟩ := Map.find?_eq_some hread hfound
        exact Buffer.even_stored_remove hb' (hc.fits id _ b hr hread).shape.2 hi hlt
      · intro hp
        exact absurd hp (Roles.not_paired hr (by simp) (by simp))
    apply hedit.then
    intro S h' _ _ hc' hS
    exact respects_pure hc' hS

theorem respects_fresh {b : Buffer} {r : Role} (hc : h.Consistent R)
    (hb : ∀ d ∈ b.stored, d.Typed R) (hl : b.liveness ≠ .decayed) (hf : r.Fits b)
    (hr : ∀ k, r ≠ .varlist k) : Respects R h (place b) fun S _ id => S id = some r := by
  apply (respects_place hc hb hl hf fun k hk => absurd hk (hr k)).mono
  intro S h' id _ hid
  rw [hid.2.1, Roles.assign_self]

theorem respects_allocateFrozen {x : Contents} {r : Role} (hc : h.Consistent R)
    (hx : ∀ d ∈ x.stored, d.Typed R)
    (hf : r.Fits { (Buffer.ofContents x).toManaged with frozen := true })
    (hr : ∀ k, r ≠ .varlist k) :
    Respects R h (Heap.allocateFrozen x) fun S _ id => S id = some r := by
  apply respects_fresh hc
  · exact hx
  · simp [Buffer.toManaged]
  · exact hf
  · exact hr

theorem respects_makeString {k : Kind} {s : String} (hk : k.isString = true)
    (hc : h.Consistent R) : Respects R h (Strings.make k s) fun S _ c => c.Typed S := by
  have hplace : Respects R h (Heap.allocateManaged (.text s)) fun S _ id => S id = some .text := by
    apply respects_fresh hc
    · simp [Buffer.stored, Buffer.toManaged, Buffer.ofContents, Contents.stored]
    · simp [Buffer.toManaged]
    · exact ⟨rfl, fun _ _ => trivial⟩
    · simp
  apply hplace.then
  intro S h' id _ hc' hid
  exact respects_pure hc' ⟨.text, hid, Or.inl hk⟩

theorem respects_makeRune {s : String} (hc : h.Consistent R) :
    Respects R h (Strings.makeRune s) fun S _ c => c.Typed S := by
  unfold Strings.makeRune
  cases hs : Cell.rune? s with
  | some c => exact respects_pure hc (Cell.typed_of_rune? hs)
  | none =>
    apply (respects_allocateFrozen (r := .text) hc ?_ ?_ ?_).then
    · intro S h' id _ hc' hid
      exact respects_pure hc' ⟨.text, hid, Or.inr rfl⟩
    · simp [Contents.stored]
    · exact ⟨rfl, fun _ _ => trivial⟩
    · simp

theorem respects_makeBlob {bs : List UInt8} (hc : h.Consistent R) :
    Respects R h (Blob.make bs) fun S _ c => c.Typed S := by
  have hplace : Respects R h (Heap.allocateManaged (.bytes bs))
      fun S _ id => S id = some .bytes := by
    apply respects_fresh hc
    · simp [Buffer.stored, Buffer.toManaged, Buffer.ofContents, Contents.stored]
    · simp [Buffer.toManaged]
    · exact ⟨rfl, fun _ _ => trivial⟩
    · simp
  apply hplace.then
  intro S h' id _ hc' hid
  exact respects_pure hc' ⟨.bytes, hid, rfl⟩

theorem respects_makeList {k : Kind} {cs : List Cell} (hk : k.isList = true)
    (hc : h.Consistent R) (hcs : ∀ d ∈ cs, d.Typed R) :
    Respects R h (Lists.make k cs) fun S _ c => c.Typed S := by
  apply respects_check hc
  intro _ he
  have hplace : Respects R h (Heap.allocateManaged (.cells cs)) fun S _ id => S id = some .list := by
    apply respects_fresh hc
    · exact hcs
    · simp [Buffer.toManaged]
    · exact ⟨rfl, Buffer.checkElements_eq_ok he⟩
    · simp
  apply hplace.then
  intro S h' id _ hc' hid
  exact respects_pure hc' ⟨.list, hid, hk⟩

theorem respects_makeSplice {cs : List Cell} (hc : h.Consistent R) (hcs : ∀ d ∈ cs, d.Typed R) :
    Respects R h (Lists.makeSplice cs) fun S _ c => c.Typed S := by
  apply (respects_makeList (k := .group) rfl hc hcs).then
  intro S h' group _ hc' hgroup
  rw [← bind_pure (HeapM.check _)]
  apply respects_check hc'
  intro d hd
  exact respects_pure hc' ((Cell.toAntiform_rehead hd).typed hgroup)

theorem respects_makePair {x y : Cell} (hc : h.Consistent R) (hx : x.Typed R) (hy : y.Typed R) :
    Respects R h (Pair.make x y) fun S _ c => c.Typed S := by
  apply respects_check hc
  intro _ hnx
  apply respects_check hc
  intro _ hny
  have hplace : Respects R h (Heap.allocateFrozen (.pairing x y))
      fun S _ id => S id = some .pair := by
    apply respects_allocateFrozen hc
    · intro d hd
      simp only [Contents.stored, List.mem_cons, List.not_mem_nil, or_false] at hd
      rcases hd with hd | hd <;> subst hd <;> assumption
    · refine ⟨⟨rfl, rfl⟩, ?_⟩
      intro d hd
      simp only [Buffer.stored, Buffer.toManaged, Buffer.ofContents, Contents.stored,
        List.mem_cons, List.not_mem_nil, or_false] at hd
      rcases hd with hd | hd <;> subst hd
      · exact Pair.checkNumber_eq_ok hnx
      · exact Pair.checkNumber_eq_ok hny
    · simp
  apply hplace.then
  intro S h' id _ hc' hid
  exact respects_pure hc' ⟨rfl, hid⟩

/-- What a sequence is kept in: nothing, or a frozen buffer of its own kind. -/
theorem respects_store {k : Kind} {es : List Cell} {m : Compression} (hc : h.Consistent R)
    (hv : Sequence.validate h k es = .ok ()) (hes : ∀ e ∈ es, e.Typed R) :
    Respects R h (Sequence.store m es) fun S _ s => (Cell.bare k (.sequence s)).Typed S := by
  obtain ⟨hk, _, hobj⟩ := Sequence.validate_eq_ok hv
  -- what is admitted does not depend on the form, so this serves for a pairing too
  have hadm : ∀ e ∈ es, (Role.sequence k .cells).Admits e := by
    intro e he
    obtain ⟨j, hj⟩ := hobj e he
    exact ⟨Cell.isElement_of_isBare (Sequence.isBare_of_objection? hj),
      Sequence.rank_lt_of_objection? hk hj⟩
  rcases Sequence.store_apply m es h with ⟨s, hs, ha⟩ | ⟨a, b, hab, ha⟩ | ha
  · apply Respects.congr ha
    apply respects_pure hc
    cases s with
    | bytes | word => exact hk
    | pair | array =>
      have hnone := Sequence.references_of_inlineStorage? (k := k) hs
      cases hnone
  · subst hab
    apply Respects.congr ha
    apply Respects.map
    apply (respects_allocateFrozen (r := .sequence k .pairing) hc ?_ ?_ ?_).mono
    · intro S h' id _ hid
      exact ⟨hk, hid⟩
    · exact hes
    · exact ⟨⟨rfl, rfl, Or.inr rfl⟩, hadm⟩
    · simp
  · apply Respects.congr ha
    apply Respects.map
    apply (respects_allocateFrozen (r := .sequence k .cells) hc ?_ ?_ ?_).mono
    · intro S h' id _ hid
      exact ⟨hk, hid⟩
    · exact hes
    · exact ⟨⟨rfl, rfl, Or.inl rfl⟩, hadm⟩
    · simp

theorem respects_makeSequence {k : Kind} {es : List Cell} {m : Compression}
    (hc : h.Consistent R) (hes : ∀ e ∈ es, e.Typed R) :
    Respects R h (Sequence.make k es m) fun S _ a => ∀ c, a = .ok c → c.Typed S := by
  apply respects_get
  cases hv : Sequence.validate h k es with
  | error why =>
    apply respects_pure hc
    intro c hc
    cases hc
  | ok u =>
    apply (respects_store hc hv hes).then
    intro S h' s _ hc' hs
    apply respects_pure hc'
    intro c hc
    cases hc
    exact hs

theorem respects_makeMap {entries : List (Cell × Cell)} (hc : h.Consistent R)
    (he : ∀ e ∈ entries, e.1.Typed R ∧ e.2.Typed R) :
    Respects R h (Map.make entries) fun S _ c => c.Typed S := by
  have hplace : Respects R h (place
      { (Buffer.ofContents (.cells [])).toManaged with reserved := entries.length * 2 })
      fun S _ id => S id = some .pairlist := by
    apply respects_fresh hc
    · simp [Buffer.stored, Buffer.toManaged, Buffer.ofContents, Contents.stored]
    · simp [Buffer.toManaged]
    · exact ⟨⟨rfl, 0, rfl⟩, fun d hd => absurd hd List.not_mem_nil⟩
    · simp
  apply hplace.then
  intro S h' id hle hc' hid
  have hmap : (Cell.bare .map (.map id)).Typed S := ⟨rfl, hid⟩
  apply (respects_forM entries hc' ?_).then
  · intro T g _ _ hg hT
    rw [hT] at hg ⊢
    exact respects_pure hg hmap
  · intro e hmem g hg
    exact respects_put hg hmap ((he e hmem).1.mono hle) ((he e hmem).2.mono hle)

theorem respects_makePhase {l : Option Symbol} {body : List Cell} (hc : h.Consistent R)
    (hb : ∀ d ∈ body, d.Typed R) :
    Respects R h (Frame.makePhase l body) fun S _ id => S id = some .body := by
  apply respects_check hc
  intro _ he
  apply respects_fresh hc
  · exact hb
  · simp [Buffer.toManaged]
  · exact ⟨⟨rfl, rfl⟩, Buffer.checkElements_eq_ok he⟩
  · simp

theorem respects_makeParameter {m : ParamClass} {t : Typeset} {f : ParamFlags} {spec : List Cell}
    (hc : h.Consistent R) (hs : ∀ d ∈ spec, d.Typed R) :
    Respects R h (Parameter.make m t f spec) fun S _ c => c.Typed S := by
  apply respects_check hc
  intro _ he
  apply (respects_allocateFrozen (r := .body) hc ?_ ?_ ?_).then
  · intro S h' id _ hc' hid
    apply respects_pure hc'
    refine ⟨rfl, ?_⟩
    intro j hj
    cases hj
    exact hid
  · exact hs
  · exact ⟨⟨rfl, rfl⟩, Buffer.checkElements_eq_ok he⟩
  · simp

theorem respects_makeContext {k : Kind} {vars : List (Symbol × Cell)}
    (hk : k = .object ∨ k = .module ∨ k = .error) (hc : h.Consistent R)
    (hv : ∀ v ∈ vars.map (·.2), v.Typed R) :
    Respects R h (Context.make k vars) fun S _ c => c.Typed S := by
  apply (respects_makeVarlist hc hv).then
  intro S h' id _ hc' hid
  exact respects_pure hc' ⟨hk, hid⟩

theorem respects_makeFrame {l : Lens} {vars : List (Symbol × Cell)} (hc : h.Consistent R)
    (hv : ∀ v ∈ vars.map (·.2), v.Typed R) :
    Respects R h (Frame.make vars l) fun S _ c => c.Typed S := by
  apply (respects_makeVarlist hc hv).then
  intro S h' id _ hc' hid
  exact respects_pure hc' ⟨rfl, hid⟩

theorem respects_makeWord {s : String} (hc : h.Consistent R) :
    Respects R h (Word.make s) fun S _ c => c.Typed S := by
  apply (respects_intern s hc).then
  intro S h' sym _ hc' _
  exact respects_pure hc' rfl

theorem respects_makeKeyword {s : String} (hc : h.Consistent R) :
    Respects R h (Word.makeKeyword s) fun S _ c => c.Typed S := by
  apply (respects_makeWord hc).then
  intro S h' c _ hc' ht
  exact respects_pure hc' (Cell.Rehead.typed ⟨rfl, rfl⟩ ht)

theorem respects_freezeDeep (id : BufferId) (hc : h.Consistent R) :
    Respects R h (Heap.freezeDeep id) fun S _ _ => S = R := by
  apply respects_ofRead hc
  intro _ _
  apply respects_get
  apply respects_forM _ hc
  intro j _ g hg
  exact respects_freeze j hg

theorem respects_expire (hc : h.Consistent R) :
    Respects R h (Frame.expire c) fun S _ _ => S = R := by
  apply respects_check hc
  intro v _
  exact respects_decay v hc

theorem respects_silent {x : HeapM Unit} (hx : Respects R h x fun S _ _ => S = R) :
    Respects R h (Operation.silent x) fun S _ a => ∀ d, a = .cell d → d.Typed S := by
  apply hx.then
  intro S h' _ _ hc' _
  apply respects_pure hc'
  intro d hd
  cases hd

theorem respects_cell {x : HeapM Cell} (hx : Respects R h x fun S _ d => d.Typed S) :
    Respects R h (Answer.cell <$> x) fun S _ a => ∀ d, a = .cell d → d.Typed S := by
  apply Respects.map
  apply hx.mono
  intro S h' e _ he d hd
  cases hd
  exact he

/-- An operation that gives no cell back. -/
theorem respects_other {α : Type} {x : HeapM α} {g : α → Answer}
    {Q : Roles → Heap → α → Prop} (hg : ∀ a d, g a ≠ .cell d) (hx : Respects R h x Q) :
    Respects R h (g <$> x) fun S _ a => ∀ d, a = .cell d → d.Typed S := by
  apply Respects.map
  apply hx.mono
  intro S h' a _ _ d hd
  exact absurd hd (hg a d)

theorem perform_respects {op : Operation} (hc : h.Consistent R) (hop : op.Admitted)
    (ha : op.Advances h) (ht : ∀ d ∈ op.cells, d.Typed R) :
    Respects R h op.perform fun S _ a => ∀ d, a = .cell d → d.Typed S := by
  cases op with
  | intern s => exact respects_other (by simp) (respects_intern s hc)
  | allocate k n =>
    apply respects_other (by simp)
    apply respects_get
    exact respects_place_loose hc (typed_of_empty k)
  | allocateWith x => exact respects_other (by simp) (respects_place_loose hc ht)
  | manage id => exact respects_silent (respects_manage id hc)
  | freeze id => exact respects_silent (respects_freeze id hc)
  | freezeDeep id => exact respects_silent (respects_freezeDeep id hc)
  | decay id => exact respects_silent (respects_decay id hc)
  | release id => exact respects_silent (respects_release id ha hc)
  | sweep marked => exact respects_other (by simp) (respects_sweep marked ha hc)
  | makeWord s => exact respects_cell (respects_makeWord hc)
  | makeKeyword s => exact respects_cell (respects_makeKeyword hc)
  | makeString k s => exact respects_cell (respects_makeString hop hc)
  | makeRune s => exact respects_cell (respects_makeRune hc)
  | makeBlob bs => exact respects_cell (respects_makeBlob hc)
  | makeList k cs => exact respects_cell (respects_makeList hop hc ht)
  | makeSplice cs => exact respects_cell (respects_makeSplice hc ht)
  | makeSequence k es m =>
    apply (respects_makeSequence hc ht).then
    intro S h' r _ hc' hr
    cases r with
    | ok c =>
      apply respects_pure hc'
      intro d hd
      cases hd
      exact hr c rfl
    | error why =>
      apply respects_pure hc'
      intro d hd
      cases hd
  | makePair x y =>
    exact respects_cell (respects_makePair hc (ht x (by simp [Operation.cells]))
      (ht y (by simp [Operation.cells])))
  | makeContext k vars => exact respects_cell (respects_makeContext hop hc ht)
  | makeFrame vars l => exact respects_cell (respects_makeFrame hc ht)
  | makeMap es =>
    apply respects_cell
    apply respects_makeMap hc
    intro e he
    have hcells : e.1 ∈ (Operation.makeMap es).cells ∧ e.2 ∈ (Operation.makeMap es).cells := by
      constructor <;> exact List.mem_flatMap.2 ⟨e, he, by simp⟩
    exact ⟨ht _ hcells.1, ht _ hcells.2⟩
  | makePhase l body => exact respects_other (by simp) (respects_makePhase hc ht)
  | makeParameter m t f spec => exact respects_cell (respects_makeParameter hc ht)
  | appendCells c cs | insertCells c cs =>
    rw [Operation.cells, List.forall_mem_cons] at ht
    exact respects_silent (respects_grow hc ht.1 fun _ => Series.tame_insertCells ht.2)
  | changeCell c n v =>
    rw [Operation.cells, List.forall_mem_cons] at ht
    exact respects_silent (respects_editAt hc ht.1 fun _ =>
      Series.tame_setCell (ht.2 v (by simp)))
  | appendText c s | insertText c s =>
    exact respects_silent (respects_grow hc (ht c (by simp [Operation.cells])) fun _ =>
      Series.tame_insertText)
  | appendBytes c bs =>
    exact respects_silent (respects_grow hc (ht c (by simp [Operation.cells])) fun _ =>
      Series.tame_insertBytes)
  | removeAt c n =>
    exact respects_silent (respects_editAt hc (ht c (by simp [Operation.cells])) fun _ =>
      Series.tame_remove)
  | truncateAt c =>
    exact respects_silent (respects_editAt hc (ht c (by simp [Operation.cells])) fun _ =>
      Series.tame_truncate)
  | truncate c n =>
    apply respects_silent
    apply respects_ofRead hc
    intro id hm
    exact respects_series hc (ht c (by simp [Operation.cells])) hm Series.tame_truncate
  | writeVariable c k v =>
    rw [Operation.cells, List.forall_mem_cons] at ht
    exact respects_silent (respects_write hc ht.1 (ht.2 v (by simp)))
  | writeVariableMeta c k v =>
    rw [Operation.cells, List.forall_mem_cons] at ht
    exact respects_silent (respects_writeMeta hc ht.1 (ht.2 v (by simp)))
  | appendVariable c k v =>
    rw [Operation.cells, List.forall_mem_cons] at ht
    exact respects_silent (respects_append hc ht.1 (ht.2 v (by simp)))
  | lockVariable c k on =>
    exact respects_silent (respects_setLocked hc (ht c (by simp [Operation.cells])))
  | expireFrame c => exact respects_silent (respects_expire hc)
  | putEntry m k v =>
    rw [Operation.cells, List.forall_mem_cons] at ht
    exact respects_silent (respects_put hc ht.1 (ht.2 k (by simp)) (ht.2 v (by simp)))
  | removeEntry m k =>
    exact respects_other (by simp) (respects_remove hc (ht m (by simp [Operation.cells])))

theorem Heap.consistent_new (config : Config) : (Heap.new config).Consistent fun _ => none := by
  refine { sound := sound_new config, issued := ?_, fits := ?_, stored := ?_, keylist := ?_,
           sole := ?_, parallel := ?_ }
  · intro id r hr
    cases hr
  · intro id r b hr
    cases hr
  · intro id b hb
    cases hb
  · intro v k hv
    cases hv
  · intro v v' k hv
    cases hv
  · intro v k bv bk hv
    cases hv

/-- In every forward session there are roles that the heap and the cells in hand keep. -/
theorem Session.typed {config : Config} {held : List Cell}
    (hs : Session (fun g op => op.Admitted ∧ op.Advances g) config h held) :
    ∃ R, h.Consistent R ∧ ∀ d ∈ held, d.Typed R := by
  induction hs with
  | start => exact ⟨fun _ => none, Heap.consistent_new config, by simp⟩
  | primitive hs hp ih =>
    obtain ⟨R, hc, hh⟩ := ih
    exact ⟨R, hc, List.forall_mem_cons.2 ⟨hp.typed, hh⟩⟩
  | rework hs hmem hd ih =>
    obtain ⟨R, hc, hh⟩ := ih
    exact ⟨R, hc, List.forall_mem_cons.2 ⟨hd.typed (hh _ hmem), hh⟩⟩
  | assign hs hslot hvalue hd ih =>
    obtain ⟨R, hc, hh⟩ := ih
    refine ⟨R, hc, List.forall_mem_cons.2 ⟨?_, hh⟩⟩
    rcases hd with hd | hd
    · exact (Cell.assign_rehead hd).typed (hh _ hvalue)
    · exact (Cell.assignMeta_rehead hd).typed (hh _ hvalue)
  | copy hs hb hmem ih =>
    obtain ⟨R, hc, hh⟩ := ih
    have hbuf := (Heap.read_eq_ok_iff.1 hb).1
    exact ⟨R, hc, List.forall_mem_cons.2 ⟨hc.stored _ _ hbuf _ hmem, hh⟩⟩
  | element hs hmem hd ih =>
    obtain ⟨R, hc, hh⟩ := ih
    exact ⟨R, hc, List.forall_mem_cons.2 ⟨(Sequence.within_of_elementAt hd).typed hc, hh⟩⟩
  | perform hs hop hmem ih =>
    obtain ⟨R, hc, hh⟩ := ih
    obtain ⟨S, hle, hc', hq⟩ := perform_respects hc hop.1 hop.2 fun d hd => hh d (hmem d hd)
    rw [after_perform] at hc'
    refine ⟨S, hc', ?_⟩
    rw [List.forall_mem_append]
    exact ⟨Operation.made_of_perform hq, fun d hd => (hh d hd).mono hle⟩

end CellHeap
