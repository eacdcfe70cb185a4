import CellHeap.Operation
import CellHeap.Proofs.Heap.Reach
import Mathlib.Data.Prod.Lex
import Mathlib.Order.WellFounded

/-!
# What a deep freeze does

A deep freeze marks the readable buffers in reach as frozen and touches nothing
else; the marks are written down as one map over the slots. The loop that visits
buffers one at a time, freezing each before it looks at the next, is written down
as well. In whatever order it takes the handles that wait, it ends, and it leaves
the heap that a deep freeze leaves.
-/

set_option autoImplicit false

namespace CellHeap.Heap

open Relation

variable {h h' : Heap} {id i j : BufferId} {b : Buffer}

def freezeWhere (h : Heap) (p : BufferId → Bool) : Heap :=
  { h with
    slots := h.slots.mapIdx fun i s =>
      { s with buffer := s.buffer.map fun b =>
          { b with frozen := b.frozen || p ⟨i, s.generation⟩ } } }

theorem slots_freezeWhere (h : Heap) (p : BufferId → Bool) (i : Nat) :
    (h.freezeWhere p).slots[i]? = h.slots[i]?.map fun s =>
      { s with buffer := s.buffer.map fun b =>
          { b with frozen := b.frozen || p ⟨i, s.generation⟩ } } := by
  simp [freezeWhere]

theorem buffer?_freezeWhere (h : Heap) (p : BufferId → Bool) (j : BufferId) :
    (h.freezeWhere p).buffer? j =
      (h.buffer? j).map fun b => { b with frozen := b.frozen || p j } := by
  simp only [buffer?, slots_freezeWhere]
  cases h.slots[j.index]? with
  | none => rfl
  | some s =>
    by_cases hg : s.generation = j.generation
    · simp [hg]
    · simp [hg]

theorem read_freezeWhere (h : Heap) (p : BufferId → Bool) (j : BufferId) :
    (h.freezeWhere p).read j =
      (h.read j).map fun b => { b with frozen := b.frozen || p j } := by
  simp only [read, buffer?_freezeWhere]
  cases h.buffer? j with
  | none => rfl
  | some b =>
    by_cases hl : b.liveness = .decayed
    · simp [hl, Except.map]
    · simp [hl, Except.map]

theorem isReadable_freezeWhere (h : Heap) (p : BufferId → Bool) (j : BufferId) :
    (h.freezeWhere p).isReadable j = h.isReadable j := by
  simp only [isReadable, read_freezeWhere]
  cases h.read j <;> rfl

theorem children_freezeWhere (h : Heap) (p : BufferId → Bool) (j : BufferId) :
    (h.freezeWhere p).children j = h.children j := by
  simp only [children, read_freezeWhere]
  cases h.read j <;> rfl

theorem ids_freezeWhere (h : Heap) (p : BufferId → Bool) : (h.freezeWhere p).ids = h.ids := by
  have hslots : (h.freezeWhere p).slots.toList.zipIdx = h.slots.toList.zipIdx.map fun x =>
      ({ x.1 with buffer := x.1.buffer.map fun b =>
          { b with frozen := b.frozen || p ⟨x.2, x.1.generation⟩ } }, x.2) := by
    apply List.ext_getElem?
    intro i
    simp [freezeWhere, List.getElem?_zipIdx]
    cases h.slots[i]? <;> rfl
  unfold ids
  rw [hslots, List.filterMap_map]
  apply List.filterMap_congr
  rintro ⟨⟨g, o⟩, i⟩ _
  cases o <;> rfl

theorem freezeWhere_freezeWhere (h : Heap) (p q : BufferId → Bool) :
    (h.freezeWhere p).freezeWhere q = h.freezeWhere fun j => p j || q j := by
  unfold freezeWhere
  congr 1
  apply Array.ext_getElem?
  intro i
  simp only [Array.getElem?_mapIdx, Option.map_map]
  congr 1
  ext1 ⟨g, o⟩
  cases o with
  | none => rfl
  | some b => simp [Bool.or_assoc]

theorem freezeWhere_false (h : Heap) : (h.freezeWhere fun _ => false) = h := by
  obtain ⟨slots, free, symbols, config⟩ := h
  unfold freezeWhere
  congr 1
  apply Array.ext_getElem?
  intro i
  simp only [Array.getElem?_mapIdx]
  cases slots[i]? with
  | none => rfl
  | some s =>
    obtain ⟨g, o⟩ := s
    cases o <;> simp

/-- The mark on one buffer. -/
theorem setBuffer_frozen (hb : h.buffer? id = some b) :
    h.setBuffer id { b with frozen := true } = h.freezeWhere (· == id) := by
  have hid := buffer?_eq_some_iff.1 hb
  unfold setBuffer freezeWhere
  congr 1
  apply Array.ext_getElem?
  intro i
  rw [Array.getElem?_modify, Array.getElem?_mapIdx]
  by_cases hi : id.index = i
  · subst hi
    simp [hid]
  · rw [if_neg hi]
    cases h.slots[i]? with
    | none => rfl
    | some s =>
      obtain ⟨g, o⟩ := s
      have hne : ((⟨i, g⟩ : BufferId) == id) = false := beq_false_of_ne fun he => hi (by rw [← he])
      cases o with
      | none => rfl
      | some c => simp only [Option.map_some, hne, Bool.or_false]

theorem freeze_of_readable (hr : h.isReadable id = true) :
    freeze id h = .ok () (h.freezeWhere (· == id)) := by
  obtain ⟨b, hb⟩ := isReadable_iff.1 hr
  unfold freeze HeapM.mark
  rw [hb]
  exact congrArg (EStateM.Result.ok ()) (setBuffer_frozen (buffer?_of_read hb))

theorem of_freeze (hx : freeze id h = .ok () h') :
    h.isReadable id = true ∧ h' = h.freezeWhere (· == id) := by
  cases hr : h.isReadable id with
  | true =>
    rw [freeze_of_readable hr] at hx
    cases hx
    exact ⟨rfl, rfl⟩
  | false =>
    unfold freeze HeapM.mark at hx
    rw [read_of_not_readable (by simp [hr])] at hx
    cases hx

theorem forM_freeze {ids : List BufferId} (hr : ∀ id ∈ ids, h.isReadable id = true) :
    ids.forM freeze h = .ok () (h.freezeWhere fun j => decide (j ∈ ids)) := by
  induction ids generalizing h with
  | nil =>
    simp only [List.not_mem_nil, decide_false, freezeWhere_false]
    rfl
  | cons id ids ih =>
    obtain ⟨hid, hrest⟩ := List.forall_mem_cons.1 hr
    have hnext := ih (h := h.freezeWhere (· == id)) fun j hj => by
      rw [isReadable_freezeWhere]
      exact hrest j hj
    have hforM : (id :: ids).forM freeze h = ids.forM freeze (h.freezeWhere (· == id)) := by
      change (freeze id >>= fun _ => ids.forM freeze) h = _
      rw [HeapM.bind_apply, freeze_of_readable hid]
    rw [hforM, hnext, freezeWhere_freezeWhere]
    simp only [List.mem_cons, Bool.decide_or, beq_eq_decide]

/-- The walk enters nothing but readable buffers in reach. -/
theorem of_mem_walk {seen todo : List BufferId} (hj : j ∈ h.walk seen todo) :
    j ∈ seen ∨ (∃ i ∈ todo, ReflTransGen h.Leads i j) ∧ h.isReadable j = true := by
  fun_induction walk h seen todo with
  | case1 seen => exact Or.inl hj
  | case2 seen id todo hs ih =>
    rcases ih hj with hj | ⟨⟨i, hi, hl⟩, hr⟩
    · exact Or.inl hj
    · exact Or.inr ⟨⟨i, List.mem_cons_of_mem _ hi, hl⟩, hr⟩
  | case3 seen id todo hs b hb ih =>
    rcases ih hj with hj | ⟨⟨i, hi, hl⟩, hr⟩
    · rcases List.mem_cons.1 hj with rfl | hj
      · exact Or.inr ⟨⟨j, List.mem_cons_self, .refl⟩, isReadable_iff.2 ⟨b, hb⟩⟩
      · exact Or.inl hj
    · refine Or.inr ⟨?_, hr⟩
      rcases List.mem_append.1 hi with hi | hi
      · exact ⟨id, List.mem_cons_self, hl.head (leads_iff.2 ⟨b, hb, hi⟩)⟩
      · exact ⟨i, List.mem_cons_of_mem _ hi, hl⟩
  | case4 seen id todo hs e he ih =>
    rcases ih hj with hj | ⟨⟨i, hi, hl⟩, hr⟩
    · exact Or.inl hj
    · exact Or.inr ⟨⟨i, List.mem_cons_of_mem _ hi, hl⟩, hr⟩

theorem mem_reachable_iff :
    j ∈ h.reachable id ↔ ReflTransGen h.Leads id j ∧ h.isReadable j = true := by
  refine ⟨fun hj => ?_, fun ⟨hl, hr⟩ => mem_reachable hl hr⟩
  rcases of_mem_walk hj with hnil | ⟨⟨i, hi, hl⟩, hr⟩
  · cases hnil
  · rw [List.mem_singleton.1 hi] at hl
    exact ⟨hl, hr⟩

/-- A deep freeze of a readable buffer succeeds, and freezes what it can reach. -/
theorem freezeDeep_of_readable (hr : h.isReadable id = true) :
    freezeDeep id h = .ok () (h.freezeWhere fun j => decide (j ∈ h.reachable id)) := by
  obtain ⟨b, hb⟩ := isReadable_iff.1 hr
  unfold freezeDeep
  rw [HeapM.reading_of_ok hb, HeapM.bind_apply, HeapM.get_apply]
  exact forM_freeze fun j hj => (mem_reachable_iff.1 hj).2

theorem freezeDeep_of_unreadable (hr : h.isReadable id = false) :
    freezeDeep id h = .error (.dataFreed id) h :=
  HeapM.reading_of_error (read_of_not_readable (by simp [hr])) _

end Heap

structure Freezing where
  heap : Heap
  seen : List BufferId
  todo : List BufferId

namespace Freezing

open Relation

def start (h : Heap) (id : BufferId) : Freezing := ⟨h, [], [id]⟩

/-- One turn of the loop takes any handle that waits. A handle that was seen before or cannot be
read is passed over; any other buffer is frozen, and the buffers that it names wait as well. -/
inductive Turn : Freezing → Freezing → Prop
  | pass {h : Heap} {seen todo rest : List BufferId} {id : BufferId}
      (ht : todo.Perm (id :: rest)) (hs : id ∈ seen ∨ h.isReadable id = false) :
      Turn ⟨h, seen, todo⟩ ⟨h, id :: seen, rest⟩
  | visit {h h' : Heap} {seen todo rest children next : List BufferId} {id : BufferId}
      (ht : todo.Perm (id :: rest)) (hs : id ∉ seen) (hf : Heap.freeze id h = .ok () h')
      (hc : h'.children id = .ok children) (hn : next.Perm (children ++ rest)) :
      Turn ⟨h, seen, todo⟩ ⟨h', id :: seen, next⟩

variable {h : Heap} {id : BufferId} {s t : Freezing}

/-- The buffers not seen yet count first, so the handles that a visit adds do not matter. -/
def remaining (s : Freezing) : ℕ ×ₗ ℕ :=
  toLex ((s.heap.unseen s.seen).length, s.todo.length)

theorem Turn.remaining_lt (ht : s.Turn t) : t.remaining < s.remaining := by
  rw [remaining, remaining, Prod.Lex.toLex_lt_toLex]
  cases ht with
  | @pass h seen todo rest id ht hs =>
    have hle : (h.unseen (id :: seen)).length ≤ (h.unseen seen).length := by
      apply List.Sublist.length_le
      apply List.monotone_filter_right
      simp
    have hrest : rest.length < todo.length := by simp [ht.length_eq]
    rcases hle.lt_or_eq with hlt | heq
    · exact Or.inl hlt
    · exact Or.inr ⟨heq, hrest⟩
  | @visit h h' seen todo rest children next id ht hs hf hc hn =>
    obtain ⟨hr, rfl⟩ := Heap.of_freeze hf
    obtain ⟨b, hb⟩ := Heap.isReadable_iff.1 hr
    refine Or.inl ?_
    simp only [Heap.unseen, Heap.ids_freezeWhere]
    exact Heap.unseen_cons_lt (Heap.mem_ids (Heap.buffer?_of_read hb)) hs

theorem wellFounded_turn : WellFounded fun t s : Freezing => s.Turn t :=
  Subrelation.wf Turn.remaining_lt (InvImage.wf remaining wellFounded_lt)

/-- The loop stops only when nothing waits. -/
theorem todo_of_stuck (hs : ∀ t, ¬ s.Turn t) : s.todo = [] := by
  obtain ⟨h, seen, todo⟩ := s
  cases todo with
  | nil => rfl
  | cons id rest =>
    exfalso
    by_cases hid : id ∈ seen
    · exact hs _ (.pass (.refl _) (Or.inl hid))
    · cases hr : h.isReadable id with
      | false => exact hs _ (.pass (.refl _) (Or.inr hr))
      | true =>
        obtain ⟨b, hb⟩ := Heap.isReadable_iff.1 hr
        have hc : (h.freezeWhere (· == id)).children id = .ok b.references := by
          rw [Heap.children_freezeWhere, Heap.children, hb]
          rfl
        exact hs _ (.visit (.refl _) hid (Heap.freeze_of_readable hr) hc (.refl _))

structure Invariant (h : Heap) (id : BufferId) (s : Freezing) : Prop where
  heap : s.heap = h.freezeWhere fun j => decide (j ∈ s.seen) && h.isReadable j
  root : id ∈ s.seen ∨ id ∈ s.todo
  reached : ∀ j, j ∈ s.seen ∨ j ∈ s.todo → ReflTransGen h.Leads id j
  closed : ∀ i ∈ s.seen, ∀ j, h.Leads i j → j ∈ s.seen ∨ j ∈ s.todo

theorem invariant_start (h : Heap) (id : BufferId) : Invariant h id (start h id) where
  heap := by simp [start, Heap.freezeWhere_false]
  root := Or.inr List.mem_cons_self
  reached := by
    rintro j (hj | hj)
    · cases hj
    · rw [List.mem_singleton.1 hj]
  closed := fun i hi => nomatch hi

theorem Invariant.turn (hs : Invariant h id s) (ht : s.Turn t) : Invariant h id t := by
  cases ht with
  | @pass g seen todo rest i ht hi =>
    obtain ⟨hheap, hroot, hreached, hclosed⟩ := hs
    dsimp only at hheap hroot hreached hclosed
    have hmem : ∀ j, j ∈ i :: seen ∨ j ∈ rest ↔ j ∈ seen ∨ j ∈ todo := by
      intro j
      simp only [ht.mem_iff, List.mem_cons]
      tauto
    -- marks do not change what can be read, so the handle is judged as in the first heap
    have hread : i ∈ seen ∨ h.isReadable i = false := by
      rwa [hheap, Heap.isReadable_freezeWhere] at hi
    refine ⟨?_, (hmem id).2 hroot, fun j hj => hreached j ((hmem j).1 hj), ?_⟩
    · refine hheap.trans (congrArg h.freezeWhere ?_)
      ext j
      by_cases hj : j = i
      · subst hj
        rcases hread with hread | hread <;> simp [hread]
      · simp [hj]
    · intro k hk j hl
      refine (hmem j).2 ?_
      rcases List.mem_cons.1 hk with rfl | hk
      · rcases hread with hread | hread
        · exact hclosed _ hread j hl
        · cases hread.symm.trans hl.isReadable
      · exact hclosed k hk j hl
  | @visit g g' seen todo rest children next i ht hi hf hc hn =>
    obtain ⟨hheap, hroot, hreached, hclosed⟩ := hs
    dsimp only at hheap hroot hreached hclosed
    obtain ⟨hr, rfl⟩ := Heap.of_freeze hf
    rw [hheap, Heap.isReadable_freezeWhere] at hr
    rw [hheap, Heap.children_freezeWhere, Heap.children_freezeWhere] at hc
    have hmem : ∀ j, j ∈ i :: seen ∨ j ∈ next ↔ (j ∈ seen ∨ j ∈ todo) ∨ j ∈ children := by
      intro j
      simp only [ht.mem_iff, hn.mem_iff, List.mem_cons, List.mem_append]
      tauto
    have hreach : ReflTransGen h.Leads id i :=
      hreached i (Or.inr (ht.mem_iff.2 List.mem_cons_self))
    refine ⟨?_, (hmem id).2 (Or.inl hroot), ?_, ?_⟩
    · have hjoin : g.freezeWhere (· == i) =
          h.freezeWhere fun j => decide (j ∈ seen) && h.isReadable j || j == i := by
        rw [hheap, Heap.freezeWhere_freezeWhere]
      refine hjoin.trans (congrArg h.freezeWhere ?_)
      ext j
      by_cases hj : j = i
      · subst hj
        simp [hr]
      · simp [hj]
    · intro j hj
      rcases (hmem j).1 hj with hj | hj
      · exact hreached j hj
      · exact hreach.tail ⟨children, hc, hj⟩
    · intro k hk j hl
      refine (hmem j).2 ?_
      rcases List.mem_cons.1 hk with rfl | hk
      · obtain ⟨js, hjs, hj⟩ := hl
        cases hc.symm.trans hjs
        exact Or.inr hj
      · exact Or.inl (hclosed k hk j hl)

theorem invariant_run (hrun : ReflTransGen Turn (start h id) s) : Invariant h id s := by
  induction hrun with
  | refl => exact invariant_start h id
  | tail _ ht ih => exact ih.turn ht

/-- A finished loop has seen what can be reached, and nothing else. -/
theorem mem_seen_iff (hs : Invariant h id s) (htodo : s.todo = []) (j : BufferId) :
    j ∈ s.seen ↔ ReflTransGen h.Leads id j := by
  have hnone : ∀ i, i ∈ s.seen ∨ i ∈ s.todo ↔ i ∈ s.seen := by simp [htodo]
  refine ⟨fun hj => hs.reached j (Or.inl hj), fun hl => ?_⟩
  induction hl with
  | refl => exact (hnone id).1 hs.root
  | tail _ hl ih => exact (hnone _).1 (hs.closed _ ih _ hl)

theorem heap_of_stuck (hrun : ReflTransGen Turn (start h id) s) (hstuck : ∀ t, ¬ s.Turn t) :
    s.heap = h.freezeWhere fun j => decide (j ∈ h.reachable id) := by
  have hs := invariant_run hrun
  refine hs.heap.trans (congrArg h.freezeWhere ?_)
  funext j
  rw [Bool.eq_iff_iff]
  simp [mem_seen_iff hs (todo_of_stuck hstuck), Heap.mem_reachable_iff]

end Freezing

namespace Heap

open Relation

/-- A deep freeze is refused for an unreadable buffer only. Otherwise it sets no mark but those of
the readable buffers in reach, and every order in which the loop can take its turns ends, with the
same heap. -/
theorem freezeDeep_freezes_reach (h : Heap) (id : BufferId) :
    (h.isReadable id = false → freezeDeep id h = .error (.dataFreed id) h) ∧
    (h.isReadable id = true → ∃ h', freezeDeep id h = .ok () h' ∧
      (∃ p, h' = h.freezeWhere p) ∧
      (∀ j b', h'.buffer? j = some b' → (b'.frozen = true ↔
        (∃ b, h.buffer? j = some b ∧ b.frozen = true) ∨
          ReflTransGen h.Leads id j ∧ h.isReadable j = true)) ∧
      Acc (fun t s : Freezing => s.Turn t) (.start h id) ∧
      ∀ s, ReflTransGen Freezing.Turn (.start h id) s → (∀ t, ¬ s.Turn t) → s.heap = h') := by
  refine ⟨freezeDeep_of_unreadable, fun hr => ⟨_, freezeDeep_of_readable hr, ⟨_, rfl⟩, ?_,
    Freezing.wellFounded_turn.apply _, fun s hrun hstuck => Freezing.heap_of_stuck hrun hstuck⟩⟩
  intro j b' hb'
  rw [buffer?_freezeWhere] at hb'
  obtain ⟨b, hb, rfl⟩ := Option.map_eq_some_iff.1 hb'
  simp [hb, mem_reachable_iff]

/-- Two lists that hold each other. The first also names a list that decayed and a buffer that
never was, so it is frozen with the second only, and a freeze of the decayed list is refused. -/
theorem freezeDeep_freezes_reach_cycle :
    let list (n : Nat) := Cell.bare .block (.series ⟨n, 0⟩ 0)
    let h := (Heap.new {}).run [.makeList .block [], .makeList .block [], .makeList .block [],
      .appendCells (list 0) [list 1, list 2, list 7, list 1], .appendCells (list 1) [list 0],
      .decay ⟨2, 0⟩]
    freezeDeep ⟨2, 0⟩ h = .error (.dataFreed ⟨2, 0⟩) h ∧
      ∃ h', freezeDeep ⟨0, 0⟩ h = .ok () h' ∧
        (∀ b, h'.buffer? ⟨1, 0⟩ = some b → b.frozen = true) ∧
        ∀ b, h'.buffer? ⟨2, 0⟩ = some b → b.frozen = false := by
  intro list h
  obtain ⟨hrefused, _⟩ := freezeDeep_freezes_reach h ⟨2, 0⟩
  obtain ⟨_, hdone⟩ := freezeDeep_freezes_reach h ⟨0, 0⟩
  obtain ⟨h', hx, _, hfrozen, _⟩ := hdone (by decide +kernel)
  have hleads : h.Leads ⟨0, 0⟩ ⟨1, 0⟩ :=
    ⟨[⟨1, 0⟩, ⟨2, 0⟩, ⟨7, 0⟩, ⟨1, 0⟩], by decide +kernel, by decide⟩
  refine ⟨hrefused (by decide +kernel), h', hx, fun b hb => ?_, fun b hb => ?_⟩
  · exact (hfrozen _ b hb).2 (Or.inr ⟨.single hleads, by decide +kernel⟩)
  · rw [← Bool.not_eq_true, hfrozen _ b hb]
    have hplain : (h.buffer? ⟨2, 0⟩).map (·.frozen) = some false := by decide +kernel
    have hunread : h.isReadable ⟨2, 0⟩ = false := by decide +kernel
    rintro (⟨b₀, hb₀, hz⟩ | ⟨_, hr⟩)
    · rw [hb₀, Option.map_some, hz] at hplain
      cases hplain
    · cases hunread.symm.trans hr

end Heap

end CellHeap
