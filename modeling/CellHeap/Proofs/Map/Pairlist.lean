import CellHeap.Proofs.Buffer.Edited
import CellHeap.Proofs.Map.Keys

/-!
# Keys and values in turn

A map keeps its pairs in one buffer, keys and values in turn. On such a buffer
the search looks at the keys only and stops at the first that is equal; a put
replaces a value in place or adds a pair at the end, and a removal takes out one
pair. A put or a removal that fails changes nothing.
-/

set_option autoImplicit false

namespace CellHeap.Map

open HeapM

def flatten (ps : List (Cell × Cell)) : List Cell := ps.flatMap fun p => [p.1, p.2]

section Flatten

variable (ps qs : List (Cell × Cell)) (k v : Cell)

@[simp] theorem flatten_nil : flatten [] = [] := rfl

@[simp] theorem flatten_cons (p : Cell × Cell) : flatten (p :: ps) = p.1 :: p.2 :: flatten ps := rfl

@[simp] theorem flatten_append : flatten (ps ++ qs) = flatten ps ++ flatten qs :=
  List.flatMap_append

@[simp] theorem length_flatten : (flatten ps).length = 2 * ps.length := by
  induction ps with
  | nil => rfl
  | cons p ps ih =>
    simp only [flatten_cons, List.length_cons, ih]
    omega

@[simp] theorem toPairs_flatten : toPairs (flatten ps) = ps := by
  induction ps with
  | nil => rfl
  | cons p ps ih => rw [flatten_cons, toPairs, ih]

theorem set_flatten (new : Cell) :
    (flatten (ps ++ (k, v) :: qs)).set (2 * ps.length + 1) new = flatten (ps ++ (k, new) :: qs) := by
  rw [flatten_append, flatten_append, List.set_append_right _ _ (by simp), length_flatten]
  simp

theorem cut_flatten : (flatten (ps ++ (k, v) :: qs)).take (2 * ps.length) ++
    (flatten (ps ++ (k, v) :: qs)).drop (2 * ps.length + 2) = flatten (ps ++ qs) := by
  rw [flatten_append, flatten_append, ← length_flatten, List.take_left, List.drop_append]
  simp

end Flatten

def Holds (h : Heap) (id : BufferId) (ps : List (Cell × Cell)) : Prop :=
  h.contents id = .ok (.cells (flatten ps))

inductive Search (h : Heap) (key : Cell) : List (Cell × Cell) → Except Fault (Option Nat) → Prop
  | absent {ps : List (Cell × Cell)} (hps : ∀ p ∈ ps, keysEqual h p.1 key = .ok false) :
      Search h key ps (.ok none)
  | found {k v : Cell} (pre post : List (Cell × Cell))
      (hpre : ∀ p ∈ pre, keysEqual h p.1 key = .ok false) (hk : keysEqual h k key = .ok true) :
      Search h key (pre ++ (k, v) :: post) (.ok (some (2 * pre.length)))
  | failed {k v : Cell} {e : Fault} (pre post : List (Cell × Cell))
      (hpre : ∀ p ∈ pre, keysEqual h p.1 key = .ok false) (hk : keysEqual h k key = .error e) :
      Search h key (pre ++ (k, v) :: post) (.error e)

inductive Inserts (h : Heap) (key value : Cell) :
    List (Cell × Cell) → List (Cell × Cell) → Prop
  | replaced {k old : Cell} (pre post : List (Cell × Cell))
      (hpre : ∀ p ∈ pre, keysEqual h p.1 key = .ok false) (hk : keysEqual h k key = .ok true) :
      Inserts h key value (pre ++ (k, old) :: post) (pre ++ (k, value.copyInto old) :: post)
  | appended {ps : List (Cell × Cell)} (hps : ∀ p ∈ ps, keysEqual h p.1 key = .ok false) :
      Inserts h key value ps (ps ++ [(key, value)])

inductive Deletes (h : Heap) (key : Cell) :
    List (Cell × Cell) → List (Cell × Cell) → Bool → Prop
  | removed {k old : Cell} (pre post : List (Cell × Cell))
      (hpre : ∀ p ∈ pre, keysEqual h p.1 key = .ok false) (hk : keysEqual h k key = .ok true) :
      Deletes h key (pre ++ (k, old) :: post) (pre ++ post) true
  | absent {ps : List (Cell × Cell)} (hps : ∀ p ∈ ps, keysEqual h p.1 key = .ok false) :
      Deletes h key ps ps false

section Search

variable {h h' : Heap} {id : BufferId} {c key value : Cell} {ps : List (Cell × Cell)}

/-- A search from `i` on is one from the start, moved by `i`. -/
theorem search_findFrom (h : Heap) (key : Cell) (ps : List (Cell × Cell)) (i : Nat) :
    ∃ r, Search h key ps r ∧ findFrom h key i (flatten ps) = r.map (Option.map (i + ·)) := by
  induction ps generalizing i with
  | nil => exact ⟨_, .absent (by simp), rfl⟩
  | cons p ps ih =>
    rcases p with ⟨k, v⟩
    cases hk : keysEqual h k key with
    | error e =>
      refine ⟨_, .failed [] ps (by simp) hk, ?_⟩
      simp [findFrom, hk, Except.map]
    | ok found =>
      cases found with
      | true =>
        refine ⟨_, .found [] ps (by simp) hk, ?_⟩
        simp [findFrom, hk, Except.map]
      | false =>
        obtain ⟨r, hr, hf⟩ := ih (i + 2)
        have hcons : findFrom h key i (flatten ((k, v) :: ps)) =
            findFrom h key (i + 2) (flatten ps) := by simp [findFrom, hk]
        rw [hcons, hf]
        cases hr with
        | absent hps =>
          refine ⟨_, .absent (List.forall_mem_cons.2 ⟨hk, hps⟩), rfl⟩
        | @found k' v' pre post hpre hk' =>
          refine ⟨_, .found ((k, v) :: pre) post (List.forall_mem_cons.2 ⟨hk, hpre⟩) hk', ?_⟩
          simp only [Except.map, Option.map_some, List.length_cons]
          congr 2
          omega
        | @failed k' v' e pre post hpre hk' =>
          exact ⟨_, .failed ((k, v) :: pre) post (List.forall_mem_cons.2 ⟨hk, hpre⟩) hk', rfl⟩

/-- A search depends only on how the keys compare with the one sought. -/
theorem findFrom_congr {h h' : Heap} {a b : Cell} (hab : ∀ k, keysEqual h k a = keysEqual h' k b)
    (i : Nat) (cs : List Cell) : findFrom h a i cs = findFrom h' b i cs := by
  induction hn : cs.length using Nat.strong_induction_on generalizing i cs with
  | _ n ih =>
    rcases cs with _ | ⟨k, _ | ⟨v, rest⟩⟩
    · rfl
    · simp only [findFrom, hab]
    · have hlt : rest.length < n := by
        rw [← hn, List.length_cons, List.length_cons]
        omega
      have hrest := ih rest.length hlt (i + 2) rest rfl
      simp only [findFrom, hab, hrest]

theorem Holds.read (hh : Holds h id ps) :
    ∃ b, h.read id = .ok b ∧ b.contents = .cells (flatten ps) :=
  Heap.read_of_contents hh

theorem Holds.search (hh : Holds h id ps) (key : Cell) : Search h key ps (find? h id key) := by
  obtain ⟨b, hr, hb⟩ := hh.read
  obtain ⟨r, hs, hf⟩ := search_findFrom h key ps 0
  have he : find? h id key = r := by
    simp only [find?, hr, ok_bind, Buffer.cells, hb, hf]
    cases r with
    | ok o => cases o <;> simp [Except.map]
    | error e => rfl
  rw [he]
  exact hs

theorem Holds.pairs (hh : Holds h id ps) (hp : pairlist c = .ok id) : pairs h c = .ok ps := by
  obtain ⟨b, hr, hb⟩ := hh.read
  simp [Map.pairs, hp, hr, Buffer.cells, hb]

theorem Holds.length (hh : Holds h id ps) (hp : pairlist c = .ok id) :
    length h c = .ok ps.length := by
  obtain ⟨b, hr, hb⟩ := hh.read
  simp [Map.length, hp, hr, Buffer.length, hb, Contents.length]

/-- The value beside the first key that is equal. -/
theorem Holds.get? (hh : Holds h id ps) (hp : pairlist c = .ok id) (key : Cell) :
    ((∀ p ∈ ps, keysEqual h p.1 key = .ok false) ∧ get? h c key = .ok none) ∨
    ∃ pre k v post, ps = pre ++ (k, v) :: post ∧
      (∀ p ∈ pre, keysEqual h p.1 key = .ok false) ∧
      (keysEqual h k key = .ok true ∧ get? h c key = .ok (some v) ∨
        ∃ e, keysEqual h k key = .error e ∧ get? h c key = .error e) := by
  have hs := hh.search key
  obtain ⟨b, hr, hb⟩ := hh.read
  generalize hf : find? h id key = r at hs
  cases hs with
  | absent hps =>
    refine Or.inl ⟨hps, ?_⟩
    simp [Map.get?, hp, hf]
  | @found k v pre post hpre hk =>
    refine Or.inr ⟨pre, k, v, post, rfl, hpre, Or.inl ⟨hk, ?_⟩⟩
    simp [Map.get?, hp, hf, hr, Buffer.cells, hb]
  | @failed k v e pre post hpre hk =>
    refine Or.inr ⟨pre, k, v, post, rfl, hpre, Or.inr ⟨e, hk, ?_⟩⟩
    simp [Map.get?, hp, hf]

end Search

section Edits

variable {h h' : Heap} {id : BufferId} {c key value : Cell} {ps : List (Cell × Cell)}

theorem checkMutable_eq_ok (hm : checkMutable c = .ok id) : pairlist c = .ok id := by
  unfold checkMutable at hm
  split at hm
  · cases hm
  · exact hm

/-- A put changes no buffer but that of the map. -/
theorem put_frame {u : Unit} (hp : pairlist c = .ok id) (hx : put c key value h = .ok u h')
    (j : BufferId) (hj : j ≠ id) : h'.buffer? j = h.buffer? j := by
  obtain ⟨id', hm, hx⟩ := of_checked hx
  rw [checkMutable_eq_ok hm] at hp
  cases hp
  obtain ⟨_, _, hx⟩ := of_checked hx
  obtain ⟨o, _, hx⟩ := of_reading hx
  cases o with
  | some i => exact Heap.edit_frame hx j hj
  | none => exact Heap.edit_frame hx j hj

theorem remove_frame {found : Bool} (hp : pairlist c = .ok id)
    (hx : remove c key h = .ok found h') (j : BufferId) (hj : j ≠ id) :
    h'.buffer? j = h.buffer? j := by
  obtain ⟨id', hm, hx⟩ := of_checked hx
  rw [checkMutable_eq_ok hm] at hp
  cases hp
  obtain ⟨o, _, hx⟩ := of_reading hx
  cases o with
  | none =>
    obtain ⟨_, rfl⟩ := of_pure hx
    rfl
  | some i =>
    obtain ⟨_, g, hx, hpure⟩ := of_bind hx
    obtain ⟨_, rfl⟩ := of_pure hpure
    exact Heap.edit_frame hx j hj

def Rewritten (h : Heap) (id : BufferId) (ps : List (Cell × Cell)) (h' : Heap) : Prop :=
  ∃ b, h.writable id = .ok b ∧ h' = h.setBuffer id (b.withContents (.cells (flatten ps)))

theorem Rewritten.holds (hr : Rewritten h id ps h') : Holds h' id ps := by
  obtain ⟨b, hw, rfl⟩ := hr
  obtain ⟨hb, hl⟩ := Heap.read_eq_ok_iff.1 (Heap.writable_eq_ok_iff.1 hw).1
  apply Heap.contents_of_read (b := b.withContents _)
  apply Heap.read_eq_ok_iff.2
  rw [Heap.buffer?_setBuffer hb, if_pos rfl]
  exact ⟨rfl, hl⟩

theorem Holds.put {u : Unit} (hh : Holds h id ps) (hp : pairlist c = .ok id)
    (hx : put c key value h = .ok u h') :
    ∃ ps', Inserts h key value ps ps' ∧ Rewritten h id ps' h' := by
  obtain ⟨id', hm, hx⟩ := of_checked hx
  rw [checkMutable_eq_ok hm] at hp
  cases hp
  obtain ⟨_, _, hx⟩ := of_checked hx
  obtain ⟨o, hf, hx⟩ := of_reading hx
  have hs := hh.search key
  obtain ⟨b, hr, hb⟩ := hh.read
  rw [hf] at hs
  cases hs with
  | absent hps =>
    refine ⟨_, .appended hps, ?_⟩
    obtain ⟨b', b'', hw, hi, rfl⟩ := of_edit hx
    rw [(Heap.writable_eq_ok_iff.1 hw).1] at hr
    cases hr
    obtain ⟨cs, hcs, _, _, rfl⟩ := Buffer.insertCells_eq_ok hi
    rw [hb] at hcs
    cases hcs
    refine ⟨b, hw, ?_⟩
    simp [Buffer.length, hb, Contents.length, List.take_of_length_le, List.drop_of_length_le]
  | @found k v pre post hpre hk =>
    refine ⟨_, .replaced pre post hpre hk, ?_⟩
    obtain ⟨b', b'', hw, hset, rfl⟩ := of_edit hx
    rw [(Heap.writable_eq_ok_iff.1 hw).1] at hr
    cases hr
    refine ⟨b, hw, ?_⟩
    rcases (Buffer.setCell_eq_ok hset).2 with ⟨cs, old, hcs, hold, rfl⟩ | ⟨x, y, hxy, _⟩
    · rw [hb] at hcs
      cases hcs
      have hv : old = v := by simpa using hold.symm
      rw [hv, set_flatten]
    · rw [hb] at hxy
      cases hxy

theorem Holds.remove {found : Bool} (hh : Holds h id ps) (hp : pairlist c = .ok id)
    (hx : remove c key h = .ok found h') :
    ∃ ps', Deletes h key ps ps' found ∧ (if found then Rewritten h id ps' h' else h' = h) := by
  obtain ⟨id', hm, hx⟩ := of_checked hx
  rw [checkMutable_eq_ok hm] at hp
  cases hp
  obtain ⟨o, hf, hx⟩ := of_reading hx
  have hs := hh.search key
  obtain ⟨b, hr, hb⟩ := hh.read
  rw [hf] at hs
  cases hs with
  | absent hps =>
    obtain ⟨rfl, rfl⟩ := of_pure hx
    exact ⟨ps, .absent hps, rfl⟩
  | @found k v pre post hpre hk =>
    obtain ⟨_, g, hx, hpure⟩ := of_bind hx
    obtain ⟨rfl, rfl⟩ := of_pure hpure
    refine ⟨_, .removed pre post hpre hk, ?_⟩
    obtain ⟨b', b'', hw, hrem, rfl⟩ := of_edit hx
    rw [(Heap.writable_eq_ok_iff.1 hw).1] at hr
    cases hr
    refine ⟨b, hw, ?_⟩
    rcases Buffer.remove_eq_ok hrem with ⟨_, _, hc, _⟩ | ⟨_, _, hc, _⟩ | ⟨cs, hcs, rfl⟩ |
      ⟨⟨_, _, hc⟩, _⟩
    · rw [hb] at hc
      cases hc
    · rw [hb] at hc
      cases hc
    · rw [hb] at hcs
      cases hcs
      have hmin : min (2 * pre.length + 2) (flatten (pre ++ (k, v) :: post)).length =
          2 * pre.length + 2 := by simp
      rw [hmin, cut_flatten]
    · rw [hb] at hc
      cases hc

theorem Holds.put_ok {b : Buffer} {o : Option Nat} (hh : Holds h id ps) (hp : pairlist c = .ok id)
    (hc : c.isConst = false) (hk : key.isElement = true) (hv : value.isElement = true)
    (hw : h.writable id = .ok b) (hz : b.fixedSize = false) (hf : find? h id key = .ok o) :
    ∃ h', Map.put c key value h = .ok () h' := by
  have hm : checkMutable c = .ok id := by simp [checkMutable, hc, hp]
  have hel : Buffer.checkElements [key, value] = .ok () := by simp [Buffer.checkElements, hk, hv]
  have hel' : Buffer.checkElements [value] = .ok () := by simp [Buffer.checkElements, hv]
  have hs := hh.search key
  obtain ⟨b', hr, hb⟩ := hh.read
  rw [(Heap.writable_eq_ok_iff.1 hw).1] at hr
  cases hr
  unfold Map.put
  rw [checked_of_ok hm, checked_of_ok hel, reading_of_ok hf]
  rw [hf] at hs
  cases hs with
  | absent =>
    have hins : b.insertCells b.length [key, value] =
        .ok (b.withContents (.cells (flatten ps ++ [key, value]))) := by
      simp [Buffer.insertCells, Buffer.checkResizable, hz, hel, Buffer.array, hb, Buffer.length,
        Contents.length, List.take_of_length_le, List.drop_of_length_le]
    exact ⟨_, edit_of_writable hw hins⟩
  | @found k v pre post =>
    obtain ⟨b', hset⟩ : ∃ b', b.setCell (2 * pre.length + 1) value = .ok b' := by
      simp [Buffer.setCell, hel', hb]
    exact ⟨_, edit_of_writable hw hset⟩

theorem Holds.remove_ok {b : Buffer} {o : Option Nat} (hh : Holds h id ps)
    (hp : pairlist c = .ok id) (hc : c.isConst = false) (hw : h.writable id = .ok b)
    (hz : b.fixedSize = false) (hf : find? h id key = .ok o) :
    ∃ found h', Map.remove c key h = .ok found h' := by
  have hm : checkMutable c = .ok id := by simp [checkMutable, hc, hp]
  have hs := hh.search key
  obtain ⟨b', hr, hb⟩ := hh.read
  rw [(Heap.writable_eq_ok_iff.1 hw).1] at hr
  cases hr
  unfold Map.remove
  rw [checked_of_ok hm, reading_of_ok hf]
  rw [hf] at hs
  cases hs with
  | absent => exact ⟨false, h, rfl⟩
  | @found k v pre post =>
    have hlt : ¬ 2 * pre.length + (2 * post.length + 1 + 1) < 2 * pre.length := by omega
    obtain ⟨b', hrem⟩ : ∃ b', b.remove (2 * pre.length) 2 = .ok b' := by
      simp [Buffer.remove, Buffer.checkResizable, hz, Buffer.length, hb, Contents.length, hlt]
    have hedit : edit id (·.remove (2 * pre.length) 2) h = .ok () (h.setBuffer id b') :=
      edit_of_writable hw hrem
    refine ⟨true, h.setBuffer id b', ?_⟩
    simp only [bind_apply, hedit]
    rfl

theorem atomic_put (c key value : Cell) : Atomic (put c key value) := by
  apply atomic_checked
  intro id
  apply atomic_checked
  intro _
  apply atomic_reading
  intro o
  cases o with
  | some i => exact atomic_edit id _
  | none => exact atomic_edit id _

theorem atomic_remove (c key : Cell) : Atomic (remove c key) := by
  apply atomic_checked
  intro id
  apply atomic_reading
  intro o
  cases o with
  | none => exact atomic_pure false
  | some i => exact (atomic_edit id _).map fun _ => true

end Edits

end CellHeap.Map
