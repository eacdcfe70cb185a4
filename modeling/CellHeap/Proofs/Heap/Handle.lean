import CellHeap.Proofs.Cell.Header
import CellHeap.Proofs.Heap.Lifetime
import CellHeap.Proofs.Sequence.Storage

/-!
# Handles that allocations give back

The handle that an operation gives back for a buffer it has placed is not issued
in the heap before, and it can be read. So no run gives the same handle back twice,
and a handle that has become unreadable stays so, unless some slot is released so
often that its generations come round.
-/

set_option autoImplicit false

namespace CellHeap

def Answer.placed : Answer → Option BufferId
  | .buffer id => some id
  | .cell c => c.home?
  | _ => none

def Operation.returned (op : Operation) (h : Heap) : Option BufferId :=
  match op.perform h with
  | .ok a _ => a.placed
  | .error _ _ => none

def Heap.returned (h : Heap) : List Operation → List BufferId
  | [] => []
  | op :: ops => (op.returned h).toList ++ (op.after h).returned ops

namespace HeapM

variable {α β : Type} {x : HeapM α} {p : α → Option BufferId} {q : β → Option BufferId}

def Allots (x : HeapM α) (p : α → Option BufferId) : Prop :=
  ∀ h a h' id, h.Sound → x h = .ok a h' → p a = some id →
    ¬ h.Issued id ∧ h'.isReadable id = true

theorem allots_of_none (hp : ∀ h a h', x h = .ok a h' → p a = none) : Allots x p := by
  intro h a h' id _ hx hid
  rw [hp h a h' hx] at hid
  cases hid

theorem Allots.map {g : α → β} (hx : Allots x p) (hg : ∀ a, q (g a) = p a) :
    Allots (g <$> x) q := by
  intro h b h' id hs hb hid
  obtain ⟨a, ha, rfl⟩ := of_map hb
  exact hx h a h' id hs ha (hg a ▸ hid)

theorem Allots.pure {g : α → β} (hx : Allots x p) (hg : ∀ a, q (g a) = p a) :
    Allots (x >>= fun a => Pure.pure (g a)) q := by
  intro h b h' id hs hb hid
  obtain ⟨a, k, ha, hb⟩ := of_bind hb
  obtain ⟨rfl, rfl⟩ := of_pure hb
  exact hx h a h' id hs ha (hg a ▸ hid)

theorem allots_ofRead {f : Heap → Except Fault α} {g : α → HeapM β} (hg : ∀ a, Allots (g a) q) :
    Allots (ofRead f >>= g) q := by
  intro h b h' id hs hb hid
  obtain ⟨a, k, ha, hk⟩ := of_bind hb
  obtain ⟨_, rfl⟩ := of_ofRead ha
  exact hg a k b h' id hs hk hid

theorem allots_get {g : Heap → HeapM β} (hg : ∀ h, Allots (g h) q) :
    Allots (get >>= g) q := by
  intro h b h' id hs hb hid
  exact hg h h b h' id hs hb hid

theorem allots_place {b : Buffer} (hl : b.liveness ≠ .decayed) : Allots (place b) some := by
  intro h a h' id hs hx hid
  obtain ⟨rfl, rfl⟩ := of_place hx
  cases hid
  constructor
  · exact Heap.not_issued_place hs b
  · exact Heap.isReadable_iff_liveness.2 ⟨b, by rw [Heap.buffer?_place hs, if_pos rfl], hl⟩

end HeapM

open HeapM

theorem allots_silent (x : HeapM Unit) : Allots (Operation.silent x) Answer.placed := by
  apply allots_of_none
  intro h a h' hx
  obtain ⟨_, _, _, ha⟩ := of_bind hx
  obtain ⟨rfl, _⟩ := of_pure ha
  rfl

theorem allots_cell {x : HeapM BufferId} {g : BufferId → Cell} (hx : Allots x some)
    (hg : ∀ id, (g id).home? = some id) : Allots (do return g (← x)) Cell.home? :=
  hx.pure hg

theorem allots_answer {x : HeapM Cell} (hx : Allots x Cell.home?) :
    Allots (Answer.cell <$> x) Answer.placed :=
  hx.map fun _ => rfl

theorem allots_managed (c : Contents) : Allots (Heap.allocateManaged c) some :=
  allots_place (by simp [Buffer.toManaged])

theorem allots_frozen (c : Contents) : Allots (Heap.allocateFrozen c) some :=
  allots_place (by simp [Buffer.toManaged])

theorem allots_makeVarlist (vars : List (Symbol × Cell)) :
    Allots (Context.makeVarlist vars) some := by
  apply allots_ofRead
  intro _ h v h' id hs hx hid
  obtain ⟨k, g, hk, hv⟩ := of_bind hx
  obtain ⟨rfl, rfl⟩ := of_place hk
  obtain ⟨hnew, hread⟩ :=
    allots_place (by simp [Buffer.toManaged]) _ v h' id (Heap.sound_place hs _) hv hid
  constructor
  · intro hi
    apply hnew
    exact (Heap.issued_place hs _ id).2 (Or.inr hi)
  · exact hread

theorem allots_map (entries : List (Cell × Cell)) :
    Allots (Map.make entries) Cell.home? := by
  intro h c h' id hs hx hid
  obtain ⟨j, g, hj, hx⟩ := of_bind hx
  obtain ⟨_, g', hputs, hc⟩ := of_bind hx
  obtain ⟨rfl, rfl⟩ := of_pure hc
  have hidj : j = id := by simpa [Cell.home?, Cell.references, Cell.bare] using hid
  subst hidj
  have hnew := allots_place (by simp [Buffer.toManaged]) h j g j hs hj rfl
  constructor
  · exact hnew.1
  · -- the entries are put in by steps of the whole operation, none of which drops the buffer
    have hop : ∀ e ∈ entries, e.1 ∈ (Operation.makeMap entries).cells ∧
        e.2 ∈ (Operation.makeMap entries).cells := by
      intro e he
      simp only [Operation.cells, List.mem_flatMap]
      exact ⟨⟨e, he, by simp⟩, e, he, by simp⟩
    have hchain := traced_forM (S := Operation.Step (.makeMap entries)) entries
      (fun e he => traced_put (m := Cell.bare .map (.map j)) (hop e he).1 (hop e he).2) g
    rw [after_of_ok hputs] at hchain
    have hlive : g.Live j := by
      obtain ⟨rfl, rfl⟩ := of_place hj
      constructor
      · exact Heap.sound_place hs _
      · exact Heap.isManaged_iff.2 ⟨_, by rw [Heap.buffer?_place hs, if_pos rfl], rfl⟩
      · exact hnew.2
    exact (chain_induction (Heap.Live · j) hchain hlive fun _ _ => Heap.step_live trivial).readable

/-- A form that needs no buffer names none. -/
theorem allots_store (k : Kind) (m : Compression) (es : List Cell) :
    Allots (Sequence.store m es) fun s => (Cell.bare k (.sequence s)).home? := by
  intro h s h' id hs hx hid
  rcases Sequence.store_apply m es h with ⟨t, ht, ha⟩ | ⟨a, b, _, ha⟩ | ha
  · rw [ha] at hx
    cases hx
    simp [Cell.home?, Sequence.references_of_inlineStorage? ht] at hid
  · have hpair : Allots (Storage.pair <$> Heap.allocateFrozen (.pairing a b)) fun s =>
        (Cell.bare k (.sequence s)).home? := (allots_frozen _).map fun _ => rfl
    rw [ha] at hx
    exact hpair h s h' id hs hx hid
  · have harray : Allots (Storage.array <$> Heap.allocateFrozen (.cells es)) fun s =>
        (Cell.bare k (.sequence s)).home? := (allots_frozen _).map fun _ => rfl
    rw [ha] at hx
    exact harray h s h' id hs hx hid

theorem allots_sequence (k : Kind) (es : List Cell) (m : Compression) :
    Allots (Operation.perform (.makeSequence k es m)) Answer.placed := by
  intro h a h' id hs hx hid
  obtain ⟨r, g, hr, hx⟩ := of_bind hx
  have hmake : Allots (Sequence.make k es m) fun r => r.toOption.bind Cell.home? := by
    apply allots_get
    intro h
    cases Sequence.validate h k es with
    | error why =>
      apply allots_of_none
      intro g s' g' hs
      obtain ⟨rfl, _⟩ := of_pure hs
      rfl
    | ok _ => exact (allots_store k m es).pure fun _ => rfl
  cases r with
  | error why =>
    obtain ⟨rfl, _⟩ := of_pure hx
    cases hid
  | ok c =>
    obtain ⟨rfl, rfl⟩ := of_pure hx
    exact hmake h (.ok c) h' id hs hr hid

theorem allots_list (k : Kind) (cs : List Cell) : Allots (Lists.make k cs) Cell.home? :=
  allots_ofRead fun _ => allots_cell (allots_managed _) fun _ => rfl

theorem allots_splice (cs : List Cell) : Allots (Lists.makeSplice cs) Cell.home? := by
  intro h c h' id hs hx hid
  obtain ⟨g, k, hg, hsplice⟩ := of_bind hx
  obtain ⟨hc, rfl⟩ := of_ofRead hsplice
  have hhome : c.home? = g.home? := by
    simp only [Cell.home?, (Cell.toAntiform_rehead hc).references]
  exact allots_list .group cs h g h' id hs hg (hhome ▸ hid)

theorem allots_rune (s : String) : Allots (Strings.makeRune s) Cell.home? := by
  unfold Strings.makeRune
  cases hr : Cell.rune? s with
  | some c =>
    apply allots_of_none
    intro h a h' hx
    obtain ⟨rfl, _⟩ := of_pure hx
    obtain ⟨_, _, rfl⟩ := Option.map_eq_some_iff.1 hr
    rfl
  | none => exact allots_cell (allots_frozen _) fun _ => rfl

theorem allots_word (s : String) : Allots (Word.make s) Cell.home? := by
  apply allots_of_none
  intro h c h' hx
  obtain ⟨_, _, _, hc⟩ := of_bind hx
  obtain ⟨rfl, _⟩ := of_pure hc
  rfl

/-- The handle that an operation gives back for a buffer is new, and it can be read. -/
theorem perform_allots (op : Operation) : Allots op.perform Answer.placed := by
  cases op with
  | intern s => exact allots_of_none fun _ _ _ hx => by obtain ⟨_, _, rfl⟩ := of_map hx; rfl
  | allocate k n =>
    exact (allots_get fun _ => allots_place (by simp [Buffer.empty, Buffer.ofContents])).map
      fun _ => rfl
  | allocateWith c => exact (allots_place (by simp [Buffer.ofContents])).map fun _ => rfl
  | sweep marked => exact allots_of_none fun _ _ _ hx => by obtain ⟨_, _, rfl⟩ := of_map hx; rfl
  | makeWord s => exact allots_answer (allots_word s)
  | makeKeyword s => exact allots_answer ((allots_word s).pure fun _ => rfl)
  | makeString k s => exact allots_answer (allots_cell (allots_managed _) fun _ => rfl)
  | makeRune s => exact allots_answer (allots_rune s)
  | makeBlob bs => exact allots_answer (allots_cell (allots_managed _) fun _ => rfl)
  | makeList k cs => exact allots_answer (allots_list k cs)
  | makeSplice cs => exact allots_answer (allots_splice cs)
  | makeSequence k es m => exact allots_sequence k es m
  | makePair x y =>
    exact allots_answer (allots_ofRead fun _ => allots_ofRead fun _ =>
      allots_cell (allots_frozen _) fun _ => rfl)
  | makeContext k vars =>
    exact allots_answer (allots_cell (allots_makeVarlist vars) fun _ => rfl)
  | makeFrame vars l =>
    exact allots_answer (allots_cell (allots_makeVarlist vars) fun _ => by cases l <;> rfl)
  | makeMap entries => exact allots_answer (allots_map entries)
  | makePhase l body =>
    exact (allots_ofRead fun _ => allots_place (by simp [Buffer.toManaged])).map fun _ => rfl
  | makeParameter m t f spec =>
    exact allots_answer (allots_ofRead fun _ => allots_cell (allots_frozen _) fun _ => rfl)
  | removeEntry m k =>
    exact allots_of_none fun _ _ _ hx => by obtain ⟨_, _, rfl⟩ := of_map hx; rfl
  | _ => exact allots_silent _

namespace Heap

variable {h : Heap} {id : BufferId}

theorem returned_new {op : Operation} (hs : h.Sound) (hr : op.returned h = some id) :
    ¬ h.Issued id ∧ (op.after h).isReadable id = true := by
  rw [← after_perform]
  cases hx : op.perform h with
  | ok a h' =>
    simp only [Operation.returned, hx] at hr
    rw [HeapM.after_of_ok hx]
    exact perform_allots op h a h' id hs hx hr
  | error e h' =>
    simp only [Operation.returned, hx] at hr
    cases hr

/-- The handles that a run gives back are distinct, and none was issued before the run. -/
theorem returned_distinct (ops : List Operation) (ha : h.Throughout Operation.Advances ops)
    (hs : h.Sound) : (h.returned ops).Nodup ∧ ∀ id ∈ h.returned ops, ¬ h.Issued id := by
  induction ops generalizing h with
  | nil => simp [returned]
  | cons op ops ih =>
    obtain ⟨hn, hnew⟩ := ih ha.2 (after_sound op hs)
    have hlater : ∀ id ∈ (op.after h).returned ops, ¬ h.Issued id := fun id hid hi =>
      hnew id hid (after_issued op ha.1 hs hi)
    cases hr : op.returned h with
    | none => simpa [returned, hr] using ⟨hn, hlater⟩
    | some j =>
      obtain ⟨hj, hjr⟩ := returned_new hs hr
      obtain ⟨b, hb, _⟩ := isReadable_iff_liveness.1 hjr
      have hnot : j ∉ (op.after h).returned ops := fun hmem => hnew j hmem (issued_of_buffer? hb)
      have hcons : h.returned (op :: ops) = j :: (op.after h).returned ops := by
        simp [returned, hr]
      rw [hcons]
      constructor
      · exact List.nodup_cons.2 ⟨hnot, hn⟩
      · intro id hid
        rcases List.mem_cons.1 hid with rfl | hid
        · exact hj
        · exact hlater id hid

theorem release_managed {b : Buffer} (hb : h.buffer? id = some b) (hm : b.managed = true) :
    Heap.release id h = .error (.managed id) h := by
  simp [Heap.release, hb, hm]

/-- Handles of a run from a new heap in which no slot is released 2^32 times. No allocation gives
back a handle twice. At every moment of the run, what an allocation gives back can be read; a handle
that could be read and cannot any more fails with released data ever after; a managed buffer stays
managed while it is present, cannot be released by hand, and is taken away by no operation but a
sweep that does not mark it; a frozen buffer stays frozen while it is present. -/
theorem handle_safety (config : Config) (run : List Operation)
    (hr : ∀ i, (Heap.new config).releases i run < UInt32.size) :
    ((Heap.new config).returned run).Nodup ∧
    ∀ ops rest, run = ops ++ rest →
      (∀ (op : Operation) id, op.returned ((Heap.new config).run ops) = some id →
        (op.after ((Heap.new config).run ops)).isReadable id = true) ∧
      (∀ id before, before <+: ops → ((Heap.new config).run before).isReadable id = true →
        ((Heap.new config).run ops).isReadable id = false →
          ((Heap.new config).run run).read id = .error (.dataFreed id)) ∧
      (∀ id, ((Heap.new config).run ops).isManaged id = true →
        (∀ b, ((Heap.new config).run run).buffer? id = some b → b.managed = true ∧
          Heap.release id ((Heap.new config).run run) =
            .error (.managed id) ((Heap.new config).run run)) ∧
        (((Heap.new config).run run).buffer? id = none →
          ∃ before marked after, rest = before ++ .sweep marked :: after ∧ marked id = false ∧
            ((Heap.new config).run (ops ++ before)).isManaged id = true)) ∧
      ∀ id b, ((Heap.new config).run ops).buffer? id = some b → b.frozen = true → ∀ b',
        ((Heap.new config).run run).buffer? id = some b' → b'.frozen = true := by
  have hadvances : (Heap.new config).Throughout Operation.Advances run := by
    apply advances_of_releases
    intro i
    rw [generation_new]
    simpa using hr i
  refine ⟨(returned_distinct run hadvances (sound_new config)).1, ?_⟩
  rintro ops rest rfl
  have hs := reachable_sound config ops
  obtain ⟨hbefore, hrest⟩ := (throughout_append ops rest).1 hadvances
  refine ⟨fun op id hop => (returned_new hs hop).2, ?_, ?_, ?_⟩
  · rintro id before ⟨mid, rfl⟩ hread hlost
    have hissued : ((Heap.new config).run (before ++ mid)).Issued id := by
      obtain ⟨b, hb, _⟩ := isReadable_iff_liveness.1 hread
      have hmid := ((throughout_append before mid).1 hbefore).2
      rw [run_append]
      exact run_issued mid hmid (reachable_sound config before) (issued_of_buffer? hb)
    rw [run_append]
    exact read_of_not_readable (run_lost rest hrest ⟨hs, hissued, by simp [hlost]⟩).unreadable
  · intro id hm
    rw [run_append]
    constructor
    · intro b hb
      obtain ⟨c, hc, hcm⟩ := isManaged_iff.1 hm
      have hbm := run_keeps_of_advances (fun _ _ _ => Fate.managed_mono) rest hrest hs hc hcm hb
      exact ⟨hbm, release_managed hb hbm⟩
    · intro hg
      obtain ⟨before, marked, after, he, hu, hb⟩ := run_removed rest hs hm hg
      exact ⟨before, marked, after, he, hu, by rw [run_append]; exact hb⟩
  · intro id b hb hz b' hb'
    rw [run_append] at hb'
    exact run_keeps_of_advances (fun _ _ _ => Fate.frozen_mono) rest hrest hs hb hz hb'

/-- A slot that is released and filled again, twice, does not revive the first handle. -/
theorem handle_safety_reused :
    let run : List Operation := [.allocate .text 0, .release ⟨0, 0⟩, .allocate .bytes 0,
      .release ⟨0, 1⟩, .allocate .text 0]
    (∀ i, (Heap.new {}).releases i run < UInt32.size) ∧
      (Heap.new {}).returned run = [⟨0, 0⟩, ⟨0, 1⟩, ⟨0, 2⟩] ∧
      ((Heap.new {}).run run).read ⟨0, 0⟩ = .error (.dataFreed ⟨0, 0⟩) := by
  intro run
  have hfew : ∀ i, (Heap.new {}).releases i run < UInt32.size := fun i =>
    Nat.lt_of_le_of_lt (releases_le_length _ i _) (by decide)
  obtain ⟨_, hmoments⟩ := handle_safety {} run hfew
  obtain ⟨_, hlost, _, _⟩ := hmoments [.allocate .text 0, .release ⟨0, 0⟩]
    [.allocate .bytes 0, .release ⟨0, 1⟩, .allocate .text 0] rfl
  exact ⟨hfew, by decide +kernel,
    hlost ⟨0, 0⟩ [.allocate .text 0] ⟨_, rfl⟩ (by decide) (by decide)⟩

end Heap

end CellHeap
