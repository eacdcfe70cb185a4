import CellHeap.Proofs.Heap.Inventory
import CellHeap.Proofs.Map.Course
import CellHeap.Proofs.Sequence.Plan
import CellHeap.Proofs.Session.Homes
import Mathlib.Data.List.Perm.Basic

/-!
# Refused constructions

A constructor that is refused leaves the heap as it was, as long as it checks what
it is given before it allocates. All do but one: a map is allocated first and the
pairs are put into it one by one, so a pair that is refused leaves behind a managed
buffer with the pairs before it, which nothing names.
-/

set_option autoImplicit false

namespace CellHeap

open HeapM

namespace HeapM

variable {α : Type}

theorem atomic_place (b : Buffer) : Atomic (place b) := by
  intro h e h' hx
  cases hx

/-- A loop that fails does so at one of its items, with the items before it done. -/
theorem of_forM_error {f : α → HeapM Unit} {xs : List α} {h h' : Heap} {e : Fault}
    (hx : xs.forM f h = .error e h') : ∃ before a after g,
      xs = before ++ a :: after ∧ before.forM f h = .ok () g ∧ f a g = .error e h' := by
  induction xs generalizing h with
  | nil => cases hx
  | cons a xs ih =>
    rcases of_bind_error hx with hfirst | ⟨u, g, ha, hrest⟩
    · exact ⟨[], a, xs, h, rfl, rfl, hfirst⟩
    · obtain ⟨before, c, after, g', rfl, hbefore, hc⟩ := ih hrest
      refine ⟨a :: before, c, after, g', rfl, ?_, hc⟩
      change (f a >>= fun _ => before.forM f) h = _
      rw [bind_apply, ha]
      exact hbefore

theorem Alike.of_ok {r r' : EStateM.Result Fault Heap α} {a : α} {h : Heap} (hr : Alike r r')
    (ha : r = .ok a h) : ∃ h', r' = .ok a h' ∧ h.trim = h'.trim := by
  cases hr with
  | ok hh =>
    cases ha
    exact ⟨_, rfl, hh⟩
  | error hh => cases ha

end HeapM

namespace Heap

variable {h h' : Heap} {id : BufferId} {b : Buffer}

structure Extended (h h' : Heap) (id : BufferId) (b : Buffer) : Prop where
  sound : h'.Sound
  fresh : ¬ h.Issued id
  buffer : h'.buffer? id = some b
  others : ∀ j ≠ id, h'.buffer? j = h.buffer? j

theorem extended_place (hs : h.Sound) (hx : HeapM.place b h = .ok id h') :
    h.Extended h' id b := by
  obtain ⟨hs', hnew, hbuffer⟩ := of_placed hs hx
  exact ⟨hs', hnew, (hbuffer id).trans (if_pos rfl), fun j hj => (hbuffer j).trans (if_neg hj)⟩

theorem Extended.setBuffer (he : h.Extended h' id b) (b' : Buffer) :
    h.Extended (h'.setBuffer id b') id b' := by
  refine ⟨sound_setBuffer he.sound he.buffer b', he.fresh, ?_, fun j hj => ?_⟩
  · rw [buffer?_setBuffer he.buffer, if_pos rfl]
  · rw [buffer?_setBuffer he.buffer, if_neg hj, he.others j hj]

theorem Extended.ids (he : h.Extended h' id b) : h'.ids.Perm (id :: h.ids) := by
  have hnew : id ∉ h.ids := by
    intro hid
    obtain ⟨b₀, hb₀⟩ := mem_ids_iff.1 hid
    exact he.fresh (issued_of_buffer? hb₀)
  rw [List.perm_ext_iff_of_nodup h'.nodup_ids (List.nodup_cons.2 ⟨hnew, h.nodup_ids⟩)]
  intro j
  rw [List.mem_cons, mem_ids_iff, mem_ids_iff]
  by_cases hj : j = id
  · subst hj
    simp [he.buffer]
  · simp [hj, he.others j hj]

theorem Extended.buffers (he : h.Extended h' id b) : h'.buffers.Perm (b :: h.buffers) := by
  have hothers : h.ids.map h'.buffer? = h.ids.map h.buffer? := by
    apply List.map_congr_left
    intro j hj
    obtain ⟨b₀, hb₀⟩ := mem_ids_iff.1 hj
    apply he.others
    rintro rfl
    exact he.fresh (issued_of_buffer? hb₀)
  have hsome : (h'.buffers.map some).Perm ((b :: h.buffers).map some) := by
    rw [← map_buffer?_ids, List.map_cons, ← map_buffer?_ids, ← hothers, ← he.buffer,
      ← List.map_cons]
    exact he.ids.map _
  exact (List.map_perm_map_iff fun _ _ => Option.some.inj).1 hsome

theorem Extended.stats (he : h.Extended h' id b) (hm : b.managed = true) (hz : b.frozen = false)
    (hl : b.liveness ≠ .decayed) :
    h'.stats = { h.stats with live := h.stats.live + 1, managed := h.stats.managed + 1 } := by
  unfold Heap.stats
  rw [he.buffers.length_eq, he.buffers.countP_eq, he.buffers.countP_eq, he.buffers.countP_eq]
  simp [hm, hz, hl]

end Heap

namespace Map

variable {h h' g : Heap} {id : BufferId} {b : Buffer} {c : Cell}

/-- A put edits the buffer of the map and keeps its marks. -/
theorem edited_of_put {u : Unit} {key value : Cell} (hp : pairlist c = .ok id)
    (hb : h.buffer? id = some b) (hx : put c key value h = .ok u h') :
    ∃ b', b' = { b with contents := b'.contents, reserved := b'.reserved } ∧
      h' = h.setBuffer id b' := by
  obtain ⟨id', hm, hx⟩ := of_checked hx
  rw [checkMutable_eq_ok hm] at hp
  cases hp
  obtain ⟨_, _, hx⟩ := of_checked hx
  obtain ⟨o, _, hx⟩ := of_reading hx
  cases o with
  | some i =>
    obtain ⟨b₀, b', hw, hb', rfl⟩ := of_edit hx
    cases hb.symm.trans (Heap.buffer?_of_read (Heap.writable_eq_ok_iff.1 hw).1)
    exact ⟨b', (Buffer.setCell_edited (P := fun _ => True) hb' (by simp) (by simp)).frame, rfl⟩
  | none =>
    obtain ⟨b₀, b', hw, hb', rfl⟩ := of_edit hx
    cases hb.symm.trans (Heap.buffer?_of_read (Heap.writable_eq_ok_iff.1 hw).1)
    exact ⟨b', (Buffer.insertCells_edited (P := fun _ => True) hb' (by simp) (by simp)).frame, rfl⟩

/-- Pairs put one by one into a new map touch its buffer only, and no mark of it. -/
theorem extended_of_puts {u : Unit} {entries : List (Cell × Cell)} (he : h.Extended g id b)
    (hp : pairlist c = .ok id) (hx : entries.forM (fun e => put c e.1 e.2) g = .ok u h') :
    ∃ b', b' = { b with contents := b'.contents, reserved := b'.reserved } ∧
      h.Extended h' id b' := by
  induction entries generalizing g b with
  | nil =>
    obtain ⟨_, rfl⟩ := of_pure hx
    exact ⟨b, rfl, he⟩
  | cons e entries ih =>
    obtain ⟨_, g', hput, hx⟩ := of_bind hx
    obtain ⟨b₁, hframe, rfl⟩ := edited_of_put hp he.buffer hput
    obtain ⟨b', hframe', he'⟩ := ih (he.setBuffer b₁) hx
    refine ⟨b', ?_, he'⟩
    rw [hframe', hframe]

def vessel (n : Nat) : Buffer :=
  { (Buffer.ofContents (.cells [])).toManaged with reserved := n }

theorem make_apply (entries : List (Cell × Cell)) (h : Heap) : make entries h =
    (place (vessel (entries.length * 2)) >>= fun id =>
      (entries.forM fun e => put (.bare .map (.map id)) e.1 e.2) >>= fun _ =>
        pure (.bare .map (.map id))) h :=
  rfl

/-- What a refused map leaves behind: a new managed buffer with the pairs before the refused one,
just as if a map had been made of these, and every other buffer as it was. -/
structure Leftover (entries : List (Cell × Cell)) (e : Fault) (h h' : Heap) (id : BufferId) :
    Prop where
  refused : ∃ before key value after, entries = before ++ (key, value) :: after ∧
    put (.bare .map (.map id)) key value h' = .error e h' ∧
    ∃ g, make before h = .ok (.bare .map (.map id)) g ∧ h'.trim = g.trim
  fresh : ¬ h.Issued id
  managed : h'.isManaged id = true
  others : ∀ j ≠ id, h'.buffer? j = h.buffer? j
  ids : h'.ids.Perm (id :: h.ids)
  stats : h'.stats = { h.stats with live := h.stats.live + 1, managed := h.stats.managed + 1 }

/-- The pairs before the refused one, put into a map for which less storage was set aside. -/
theorem make_of_puts {n : Nat} {before : List (Cell × Cell)}
    (hplace : place (vessel n) h = .ok id g)
    (hputs : before.forM (fun e => put (.bare .map (.map id)) e.1 e.2) g = .ok () h') :
    ∃ g', make before h = .ok (.bare .map (.map id)) g' ∧ h'.trim = g'.trim := by
  have htrim : (vessel n).trim = (vessel (before.length * 2)).trim := rfl
  obtain ⟨g₀, hplace₀, hg⟩ := (alike_place htrim h).of_ok hplace
  have hblind := blind_forM before fun e _ => blind_put (.bare .map (.map id)) e.1 e.2
  obtain ⟨g', hputs', hh⟩ := (hblind g g₀ hg).of_ok hputs
  refine ⟨g', ?_, hh⟩
  rw [make_apply, bind_apply, hplace₀]
  exact (bind_apply _ _ _).trans (by rw [hputs']; rfl)

theorem leftover_of_make {entries : List (Cell × Cell)} {e : Fault} (hs : h.Sound)
    (hx : make entries h = .error e h') : ∃ id, Leftover entries e h h' id := by
  rw [make_apply] at hx
  rcases of_bind_error hx with hplace | ⟨id, g, hplace, hx⟩
  · cases hplace
  rcases of_bind_error hx with hputs | ⟨_, _, _, hpure⟩
  · obtain ⟨before, kv, after, h₁, hentries, hbefore, hput⟩ := of_forM_error hputs
    -- a put that fails leaves the heap of the puts before it
    obtain rfl : h' = h₁ := atomic_put _ _ _ _ _ _ hput
    obtain ⟨b, hframe, he⟩ := extended_of_puts (Heap.extended_place hs hplace) rfl hbefore
    have hm : b.managed = true := by rw [hframe]; rfl
    have hz : b.frozen = false := by rw [hframe]; rfl
    have hl : b.liveness = .managed := by rw [hframe]; rfl
    exact ⟨id, ⟨before, kv.1, kv.2, after, hentries, hput, make_of_puts hplace hbefore⟩, he.fresh,
      Heap.isManaged_iff.2 ⟨b, he.buffer, hm⟩, he.others, he.ids,
      he.stats hm hz (by rw [hl]; decide)⟩
  · cases hpure

end Map

theorem Lists.atomic_make (kind : Kind) (cells : List Cell) : Atomic (make kind cells) :=
  atomic_checked fun _ => (atomic_place _).map _

/-- A group has a stable antiform, so only the cells can be refused. -/
theorem Lists.atomic_makeSplice (cells : List Cell) : Atomic (makeSplice cells) := by
  intro h e h' hx
  rcases of_bind_error hx with hmake | ⟨group, g, hmake, hcheck⟩
  · exact atomic_make .group cells h e h' hmake
  · obtain ⟨_, _, hmake⟩ := of_checked hmake
    obtain ⟨id, _, rfl⟩ := of_wrap hmake
    cases hcheck

namespace Operation

variable {h h' : Heap} {op : Operation}

def constructs : Operation → Bool
  | makeList .. | makeSplice .. | makeSequence .. | makePair .. | makeContext .. | makeFrame ..
  | makeMap .. | makePhase .. | makeParameter .. => true
  | _ => false

def Refused (op : Operation) (h h' : Heap) : Prop :=
  (∃ e, op.perform h = .error e h') ∨ ∃ why, op.perform h = .ok (.rejected why) h'

/-- Only a sequence is rejected by an answer; other constructors fail. -/
theorem Refused.of_map {α : Type} {x : HeapM α} {f : α → Answer} (hop : op.perform = f <$> x)
    (hf : ∀ a why, f a ≠ .rejected why) (hx : op.Refused h h') : ∃ e, x h = .error e h' := by
  rcases hx with ⟨e, he⟩ | ⟨why, hwhy⟩
  · rw [hop] at he
    exact ⟨e, of_map_error he⟩
  · rw [hop] at hwhy
    obtain ⟨a, _, ha⟩ := HeapM.of_map hwhy
    exact absurd ha (hf a why)

theorem Refused.of_atomic {α : Type} {x : HeapM α} {f : α → Answer} (hop : op.perform = f <$> x)
    (hf : ∀ a why, f a ≠ .rejected why) (hx : op.Refused h h') (ha : Atomic x) : h' = h := by
  obtain ⟨e, he⟩ := hx.of_map hop hf
  exact ha h e h' he

theorem Refused.of_makeSequence {k : Kind} {es : List Cell} {m : Compression}
    (hx : (makeSequence k es m).Refused h h') : h' = h := by
  cases hv : Sequence.validate h k es with
  | error why =>
    have hmake : (makeSequence k es m).perform h = .ok (.rejected why) h := by
      simp only [perform, bind_apply, Sequence.make_rejected m hv]
      rfl
    rcases hx with ⟨e, he⟩ | ⟨why', hwhy⟩
    · cases hmake.symm.trans he
    · cases hmake.symm.trans hwhy
      rfl
  | ok u =>
    obtain ⟨c, g, hc⟩ := (Sequence.make_succeeds_iff (m := m)).2 hv
    have hmake : (makeSequence k es m).perform h = .ok (.cell c) g := by
      simp only [perform, bind_apply, hc]
      rfl
    rcases hx with ⟨e, he⟩ | ⟨why', hwhy⟩
    · cases hmake.symm.trans he
    · cases hmake.symm.trans hwhy

theorem Refused.unchanged (hop : op.constructs = true) (hmap : ∀ entries, op ≠ .makeMap entries)
    (hx : op.Refused h h') : h' = h := by
  have hcell : ∀ c why, Answer.cell c ≠ .rejected why := fun _ _ he => Answer.noConfusion he
  have hbuffer : ∀ id why, Answer.buffer id ≠ .rejected why := fun _ _ he => Answer.noConfusion he
  cases op with
  | makeList k cs => exact hx.of_atomic rfl hcell (Lists.atomic_make k cs)
  | makeSplice cs => exact hx.of_atomic rfl hcell (Lists.atomic_makeSplice cs)
  | makeSequence k es m => exact hx.of_makeSequence
  | makePair x y =>
    exact hx.of_atomic rfl hcell
      (atomic_checked fun _ => atomic_checked fun _ => (atomic_place _).map _)
  | makeContext k vars => exact hx.of_atomic rfl hcell ((Context.atomic_makeVarlist vars).map _)
  | makeFrame vars l => exact hx.of_atomic rfl hcell ((Context.atomic_makeVarlist vars).map _)
  | makeMap entries => exact absurd rfl (hmap entries)
  | makePhase l body => exact hx.of_atomic rfl hbuffer (atomic_checked fun _ => atomic_place _)
  | makeParameter mode types flags spec =>
    exact hx.of_atomic rfl hcell (atomic_checked fun _ => (atomic_place _).map _)
  | _ => cases hop

/-- After any run, a constructor that is refused leaves the heap just as it was, unless it is that
of a map; a refused map leaves one managed buffer behind, with the pairs before the refused one. -/
theorem refused_construction (config : Config) (ops : List Operation) {op : Operation} {h' : Heap}
    (hop : op.constructs = true) (hx : op.Refused ((Heap.new config).run ops) h') :
    ((∀ entries, op ≠ .makeMap entries) → h' = (Heap.new config).run ops) ∧
    ∀ entries, op = .makeMap entries → ∃ e id, op.perform ((Heap.new config).run ops) = .error e h' ∧
      Map.Leftover entries e ((Heap.new config).run ops) h' id := by
  refine ⟨fun hmap => hx.unchanged hop hmap, ?_⟩
  rintro entries rfl
  obtain ⟨e, he⟩ := hx.of_map rfl fun _ _ ha => Answer.noConfusion ha
  obtain ⟨id, hleft⟩ := Map.leftover_of_make (Heap.reachable_sound config ops) he
  refine ⟨e, id, ?_, hleft⟩
  rcases hx with ⟨e', he'⟩ | ⟨why, hwhy⟩
  · cases (of_map_error he').symm.trans he
    exact he'
  · obtain ⟨_, _, ha⟩ := HeapM.of_map hwhy
    cases ha

/-- A group with an antiform in it leaves no trace. A map with one leaves a buffer with the pair
before it. -/
theorem refused_construction_second_pair :
    let h := (Heap.new {}).run [.makeList .block []]
    let pairs := [(.integer 1, .blank), (.integer 2, .trash)]
    (∃ h', (makeList .group [.blank, .trash]).Refused h h' ∧ h' = h) ∧
    ∃ h' id, (makeMap pairs).Refused h h' ∧ Map.Leftover pairs (.notAnElement .blank) h h' id ∧
      h'.stats = ⟨2, 2, 0, 0⟩ := by
  intro h pairs
  have hlist : (makeList .group [.blank, .trash]).Refused h _ := Or.inl ⟨_, rfl⟩
  have hperform : (makeMap pairs).perform h = .error (.notAnElement .blank) _ := rfl
  obtain ⟨hsame, _⟩ := refused_construction {} [.makeList .block []] rfl hlist
  obtain ⟨_, hmap⟩ := refused_construction {} [.makeList .block []] rfl (Or.inl ⟨_, hperform⟩)
  obtain ⟨e, id, he, hleft⟩ := hmap pairs rfl
  obtain rfl : e = .notAnElement .blank := by
    cases he.symm.trans hperform
    rfl
  refine ⟨⟨_, hlist, hsame fun _ hne => Operation.noConfusion hne⟩,
    _, id, Or.inl ⟨_, hperform⟩, hleft, ?_⟩
  rw [hleft.stats]
  rfl

/-- A refused constructor may leave a buffer behind: on a new heap, a map of one pair does. -/
theorem refused_map_allocates : ¬ ∀ (config : Config) (ops : List Operation) (op : Operation)
    (h' : Heap), op.constructs = true → op.Refused ((Heap.new config).run ops) h' →
      h' = (Heap.new config).run ops := by
  intro hall
  have hsame := hall {} [] (.makeMap [(.integer 1, .trash)]) _ rfl (Or.inl ⟨_, rfl⟩)
  have hlive := congrArg (·.stats.live) hsame
  cases hlive

end Operation

end CellHeap
