import CellHeap.Proofs.Heap.Lifetime
import CellHeap.Proofs.Heap.Reserve
import CellHeap.Proofs.Map.History

/-!
# Maps over whole runs

A course is the life of a map: it is made of given pairs, then pairs are put and
removed through any cells that name its buffer, and between these anything may
happen that leaves the map and the contents of the keys alone. All along the map
is an insertion-ordered finite map whose keys are told apart by `keysEqual`. The
one thing that stands in the way of a look-up is a key that cannot be compared,
such as a text at a position past its end.
-/

set_option autoImplicit false

namespace CellHeap.Map

open HeapM

section Making

variable {h h' : Heap}

theorem keysEqual_of_trim (hh : h.trim = h'.trim) (a b : Cell) :
    keysEqual h' a b = keysEqual h a b :=
  keysEqual_congr (fun id _ => Heap.contents_of_trim hh id) fun id _ => Heap.contents_of_trim hh id

theorem findFrom_of_trim (hh : h.trim = h'.trim) (key : Cell) (i : Nat) (cs : List Cell) :
    findFrom h' key i cs = findFrom h key i cs :=
  findFrom_congr (fun k => keysEqual_of_trim hh k key) i cs

theorem find?_of_trim (hh : h.trim = h'.trim) (id : BufferId) (key : Cell) :
    find? h' id key = find? h id key := by
  unfold find?
  rcases Heap.read_of_trim hh id with ⟨b, b', hr, hr', he⟩ | ⟨hr, hr'⟩
  · rw [hr, hr', Buffer.eq_of_trim he]
    simp only [ok_bind, findFrom_of_trim hh]
    rfl
  · rw [hr, hr']
    rfl

theorem blind_put (c key value : Cell) : Blind (put c key value) := by
  refine (blind_check _).then fun id => (blind_check _).then fun _ => ?_
  refine (blind_ofRead fun h h' hh => find?_of_trim hh id key).then fun o => ?_
  cases o with
  | some i => exact blind_edit fun b b' hb => Buffer.trim_setCell hb (i + 1) value
  | none => exact blind_edit fun b b' hb => Buffer.trim_insertCells hb [key, value]

def ofPuts (entries : List (Cell × Cell)) : HeapM Cell := do
  let c ← make []
  entries.forM fun e => put c e.1 e.2
  return c

/-- The two ways to make a map differ in the storage set aside beforehand. -/
theorem make_alike (entries : List (Cell × Cell)) (h : Heap) :
    Alike (make entries h) (ofPuts entries h) := by
  generalize hf : (fun id => do
    let c := Cell.bare .map (.map id)
    entries.forM fun e => put c e.1 e.2
    return c : BufferId → HeapM Cell) = f
  have hfull : make entries h = (place
      { (Buffer.ofContents (.cells [])).toManaged with reserved := entries.length * 2 } >>= f) h := by
    subst hf
    rfl
  have hempty : ofPuts entries h = (place
      { (Buffer.ofContents (.cells [])).toManaged with reserved := 0 } >>= f) h := by
    subst hf
    rfl
  rw [hfull, hempty]
  refine Alike.bind (alike_place ?_ h) fun id => ?_
  · rfl
  · subst hf
    exact (blind_forM entries fun e _ => blind_put _ e.1 e.2).then fun _ => blind_pure _

end Making

def Steady (h h' : Heap) (k : Cell) : Prop :=
  ∀ id, keyBuffer? k = some id → h'.contents id = h.contents id

inductive Course (id : BufferId) : Heap → List Event → Prop
  | made {config : Config} {before : List Operation} {entries : List (Cell × Cell)} {c : Cell}
      {h' : Heap} (hx : make entries ((Heap.new config).run before) = .ok c h')
      (hp : pairlist c = .ok id)
      (hk : ∀ e ∈ entries, ∀ j, keyBuffer? e.1 = some j →
        ((Heap.new config).run before).isReadable j = true) :
      Course id h' (entries.map fun e => .put e.1 e.2).reverse
  | put {h h' : Heap} {evs : List Event} {c key value : Cell} (hc : Course id h evs)
      (hp : pairlist c = .ok id) (hx : Map.put c key value h = .ok () h')
      (hs : ∀ e ∈ Event.put key value :: evs, Steady h h' e.key) :
      Course id h' (.put key value :: evs)
  | remove {h h' : Heap} {evs : List Event} {c key : Cell} {found : Bool} (hc : Course id h evs)
      (hp : pairlist c = .ok id) (hx : Map.remove c key h = .ok found h')
      (hs : ∀ e ∈ Event.remove key :: evs, Steady h h' e.key) :
      Course id h' (.remove key :: evs)
  | other {h : Heap} {evs : List Event} (op : Operation) (hc : Course id h evs)
      (hsame : (op.after h).contents id = h.contents id)
      (hs : ∀ e ∈ evs, Steady h (op.after h) e.key) : Course id (op.after h) evs

structure Kept (h : Heap) (id : BufferId) (ps : List (Cell × Cell)) (evs : List Event) : Prop where
  sound : h.Sound
  holds : Holds h id ps
  resizable : ∀ b, h.read id = .ok b → b.fixedSize = false
  tracks : Tracks h ps evs

section Steps

variable {h h' : Heap} {id : BufferId} {c key value : Cell} {ps ps' : List (Cell × Cell)}
variable {evs : List Event}

theorem Tracks.steady (ht : Tracks h ps evs) (hs : ∀ e ∈ evs, Steady h h' e.key) :
    Tracks h' ps evs :=
  ht.congr fun e he e' he' => keysEqual_congr (hs e he) (hs e' he')

theorem Kept.rewritten (hk : Kept h id ps evs) (hr : Rewritten h id ps' h') :
    h'.Sound ∧ ∀ b, h'.read id = .ok b → b.fixedSize = false := by
  obtain ⟨b, hw, rfl⟩ := hr
  have hread := (Heap.writable_eq_ok_iff.1 hw).1
  have hb := Heap.buffer?_of_read hread
  refine ⟨Heap.sound_setBuffer hk.sound hb _, ?_⟩
  intro b' hb'
  have hb' := Heap.buffer?_of_read hb'
  rw [Heap.buffer?_setBuffer hb, if_pos rfl] at hb'
  cases hb'
  exact hk.resizable b hread

theorem Kept.put {u : Unit} (hk : Kept h id ps evs) (hp : pairlist c = .ok id)
    (hx : Map.put c key value h = .ok u h')
    (hs : ∀ e ∈ Event.put key value :: evs, Steady h h' e.key) :
    ∃ ps', Kept h' id ps' (.put key value :: evs) := by
  obtain ⟨ps', hi, hr⟩ := hk.holds.put hp hx
  obtain ⟨hsound, hz⟩ := hk.rewritten hr
  exact ⟨ps', hsound, hr.holds, hz, (hk.tracks.inserts hi).steady hs⟩

theorem Kept.remove {found : Bool} (hk : Kept h id ps evs) (hp : pairlist c = .ok id)
    (hx : Map.remove c key h = .ok found h')
    (hs : ∀ e ∈ Event.remove key :: evs, Steady h h' e.key) :
    ∃ ps', Kept h' id ps' (.remove key :: evs) := by
  obtain ⟨ps', hd, hr⟩ := hk.holds.remove hp hx
  have ht := (hk.tracks.deletes hd).steady hs
  cases found with
  | true =>
    obtain ⟨hsound, hz⟩ := hk.rewritten hr
    exact ⟨ps', hsound, Rewritten.holds hr, hz, ht⟩
  | false =>
    cases hd with
    | absent =>
      have he : h' = h := hr
      rw [he] at ht ⊢
      exact ⟨ps, hk.sound, hk.holds, hk.resizable, ht⟩

theorem Kept.other (op : Operation) (hk : Kept h id ps evs)
    (hsame : (op.after h).contents id = h.contents id)
    (hs : ∀ e ∈ evs, Steady h (op.after h) e.key) : Kept (op.after h) id ps evs := by
  obtain ⟨b, hr, _⟩ := hk.holds.read
  refine ⟨Heap.after_sound op hk.sound, hsame.trans hk.holds, ?_, hk.tracks.steady hs⟩
  intro b' hb'
  exact Heap.after_keeps (P := fun c => c.fixedSize = false)
    (fun _ _ _ hf hc => hf.fixedSize.trans hc) op hk.sound (Heap.buffer?_of_read hr)
    (hk.resizable b hr) (Heap.buffer?_of_read hb')

/-- Puts leave the keys alone that have their contents elsewhere. -/
theorem Kept.puts {u : Unit} (entries : List (Cell × Cell)) (hk : Kept h id ps evs)
    (hp : pairlist c = .ok id) (hevs : ∀ e ∈ evs, keyBuffer? e.key ≠ some id)
    (hentries : ∀ e ∈ entries, keyBuffer? e.1 ≠ some id)
    (hx : entries.forM (fun e => Map.put c e.1 e.2) h = .ok u h') :
    ∃ ps', Kept h' id ps' ((entries.map fun e => .put e.1 e.2).reverse ++ evs) := by
  induction entries generalizing h ps evs with
  | nil =>
    obtain ⟨_, rfl⟩ := of_pure hx
    exact ⟨ps, hk⟩
  | cons e entries ih =>
    obtain ⟨_, g, hput, hx⟩ := of_bind hx
    rw [List.forall_mem_cons] at hentries
    have hevs' : ∀ x ∈ Event.put e.1 e.2 :: evs, keyBuffer? x.key ≠ some id :=
      List.forall_mem_cons.2 ⟨hentries.1, hevs⟩
    obtain ⟨ps', hk'⟩ := hk.put hp hput (by
      intro x hx j hj
      have hne : j ≠ id := fun he => hevs' x hx (he ▸ hj)
      exact Heap.contents_of_buffer? (put_frame hp hput j hne))
    obtain ⟨ps'', hk''⟩ := ih hk' hevs' hentries.2 hx
    refine ⟨ps'', ?_⟩
    simpa using hk''

theorem kept_make {entries : List (Cell × Cell)} (hs : h.Sound)
    (hx : make entries h = .ok c h') (hp : pairlist c = .ok id)
    (hk : ∀ e ∈ entries, ∀ j, keyBuffer? e.1 = some j → h.isReadable j = true) :
    ∃ ps, Kept h' id ps (entries.map fun e => .put e.1 e.2).reverse := by
  obtain ⟨id', g, hplace, hx⟩ := of_bind hx
  obtain ⟨_, g', hputs, hpure⟩ := of_bind hx
  obtain ⟨rfl, rfl⟩ := of_pure hpure
  have hid : id' = id := Except.ok.inj hp
  subst hid
  obtain ⟨hsound, hnew, _⟩ := Heap.of_placed hs hplace
  have hread := Heap.read_of_placed hs hplace (by simp [Buffer.toManaged])
  have hstart : Kept g id' [] [] := by
    refine ⟨hsound, Heap.contents_of_read hread, ?_, .nil, by simp, fun _ => rfl⟩
    intro b hb
    rw [hread] at hb
    cases hb
    rfl
  have hfresh : ∀ e ∈ entries, keyBuffer? e.1 ≠ some id' := by
    intro e he hj
    obtain ⟨b, hb⟩ := Heap.isReadable_iff.1 (hk e he id' hj)
    exact hnew (Heap.issued_of_buffer? (Heap.buffer?_of_read hb))
  obtain ⟨ps, hkept⟩ := hstart.puts entries hp (by simp) hfresh hputs
  exact ⟨ps, by simpa using hkept⟩

end Steps

theorem puts_frame {h h' : Heap} {id : BufferId} {c : Cell} {u : Unit}
    (entries : List (Cell × Cell)) (hp : pairlist c = .ok id)
    (hx : entries.forM (fun e => put c e.1 e.2) h = .ok u h') (j : BufferId) (hj : j ≠ id) :
    h'.buffer? j = h.buffer? j := by
  induction entries generalizing h with
  | nil =>
    obtain ⟨_, rfl⟩ := of_pure hx
    rfl
  | cons e entries ih =>
    obtain ⟨_, g, hput, hx⟩ := of_bind hx
    exact (ih hx).trans (put_frame hp hput j hj)

theorem make_frame {h h' : Heap} {c : Cell} {entries : List (Cell × Cell)} (hs : h.Sound)
    (hx : make entries h = .ok c h') :
    ∃ id, pairlist c = .ok id ∧ ¬ h.Issued id ∧ ∀ j ≠ id, h'.buffer? j = h.buffer? j := by
  obtain ⟨id, g, hplace, hx⟩ := of_bind hx
  obtain ⟨_, g', hputs, hpure⟩ := of_bind hx
  obtain ⟨rfl, rfl⟩ := of_pure hpure
  obtain ⟨_, hnew, hbuffer⟩ := Heap.of_placed hs hplace
  refine ⟨id, rfl, hnew, ?_⟩
  intro j hj
  rw [puts_frame entries rfl hputs j hj, hbuffer, if_neg hj]

theorem Course.kept {id : BufferId} {h : Heap} {evs : List Event} (hc : Course id h evs) :
    ∃ ps, Kept h id ps evs := by
  induction hc with
  | made hx hp hk => exact kept_make (Heap.reachable_sound _ _) hx hp hk
  | put _ hp hx hs ih =>
    obtain ⟨ps, hkept⟩ := ih
    exact hkept.put hp hx hs
  | remove _ hp hx hs ih =>
    obtain ⟨ps, hkept⟩ := ih
    exact hkept.remove hp hx hs
  | other op _ hsame hs ih =>
    obtain ⟨ps, hkept⟩ := ih
    exact ⟨ps, hkept.other op hsame hs⟩

structure Ordered (h : Heap) (id : BufferId) (evs : List Event) (ps : List (Cell × Cell)) :
    Prop where
  flat : h.contents id = .ok (.cells (flatten ps))
  pairs : ∀ c, pairlist c = .ok id → Map.pairs h c = .ok ps
  length : ∀ c, pairlist c = .ok id → Map.length h c = .ok ps.length
  key_self : ∀ k f, face h k = .ok f → f.hasNaN = false → keysEqual h k k = .ok true
  key_symm : ∀ a b x, keysEqual h a b = .ok x → keysEqual h b a = .ok x
  key_trans : ∀ a b c, keysEqual h a b = .ok true → keysEqual h b c = .ok true →
    keysEqual h a c = .ok true
  distinct : ps.Pairwise fun p q => keysEqual h p.1 q.1 = .ok false
  /-- A look-up gives what was put last under an equal key. -/
  get : ∀ c key r, pairlist c = .ok id → get? h c key = .ok r →
    r.map Cell.unflagged = (latest h key evs).map Cell.unflagged
  get_fault : ∀ c key e, pairlist c = .ok id → get? h c key = .error e →
    ∃ p ∈ ps, keysEqual h p.1 key = .error e
  put : ∀ c key value h', pairlist c = .ok id → Map.put c key value h = .ok () h' →
    (∃ ps', Inserts h key value ps ps' ∧ Map.pairs h' c = .ok ps') ∧
      ∀ j ≠ id, h'.buffer? j = h.buffer? j
  put_ok : ∀ c key value b, pairlist c = .ok id → c.isConst = false → key.isElement = true →
    value.isElement = true → h.writable id = .ok b →
    (∀ p ∈ ps, ∃ x, keysEqual h p.1 key = .ok x) → ∃ h', Map.put c key value h = .ok () h'
  put_fault : ∀ c key value e h', Map.put c key value h = .error e h' → h' = h
  remove : ∀ c key found h', pairlist c = .ok id → Map.remove c key h = .ok found h' →
    (∃ ps', Deletes h key ps ps' found ∧ Map.pairs h' c = .ok ps') ∧
      ∀ j ≠ id, h'.buffer? j = h.buffer? j
  remove_ok : ∀ c key b, pairlist c = .ok id → c.isConst = false → h.writable id = .ok b →
    (∀ p ∈ ps, ∃ x, keysEqual h p.1 key = .ok x) →
    ∃ found h', Map.remove c key h = .ok found h'
  remove_fault : ∀ c key e h', Map.remove c key h = .error e h' → h' = h

section Ordered

variable {h h' : Heap} {id : BufferId} {c key value : Cell} {ps : List (Cell × Cell)}
variable {evs : List Event}

theorem Kept.get (hk : Kept h id ps evs) (hp : pairlist c = .ok id) {r : Option Cell}
    (hr : get? h c key = .ok r) :
    r.map Cell.unflagged = (latest h key evs).map Cell.unflagged := by
  rw [← hk.tracks.current key]
  rcases hk.holds.get? hp key with ⟨hall, hg⟩ | ⟨pre, k, v, post, rfl, hpre, hg⟩
  · rw [hr] at hg
    cases hg
    rw [lookup_eq_none]
    intro p hp hk
    rw [hall p hp] at hk
    cases hk
  · have hne : ∀ p ∈ pre, keysEqual h p.1 key ≠ .ok true := by
      intro p hp hk
      rw [hpre p hp] at hk
      cases hk
    rcases hg with ⟨hkey, hg⟩ | ⟨e, _, hg⟩
    · rw [hr] at hg
      cases hg
      rw [lookup_append_of_ne hne, lookup_cons_of_eq hkey]
    · rw [hr] at hg
      cases hg

/-- A search ends well if all comparisons do. -/
theorem Kept.find (hk : Kept h id ps evs)
    (hall : ∀ p ∈ ps, ∃ x, keysEqual h p.1 key = .ok x) : ∃ o, find? h id key = .ok o := by
  have hs := hk.holds.search key
  generalize find? h id key = r at hs
  cases hs with
  | absent => exact ⟨_, rfl⟩
  | found => exact ⟨_, rfl⟩
  | failed pre post _ hfail =>
    obtain ⟨x, hx⟩ := hall _ (List.mem_append_right pre (List.mem_cons_self ..))
    rw [hfail] at hx
    cases hx

theorem Kept.ordered (hk : Kept h id ps evs) : Ordered h id evs ps := by
  constructor
  · exact hk.holds
  · exact fun c hp => hk.holds.pairs hp
  · exact fun c hp => hk.holds.length hp
  · exact fun k f => keysEqual_self
  · exact fun a b x => keysEqual_symm
  · exact fun a b c => keysEqual_trans
  · exact hk.tracks.distinct
  · exact fun c key r hp hr => hk.get hp hr
  · intro c key e hp he
    rcases hk.holds.get? hp key with ⟨_, hg⟩ | ⟨pre, k, v, post, rfl, _, hg⟩
    · rw [he] at hg
      cases hg
    · rcases hg with ⟨_, hg⟩ | ⟨e', hkey, hg⟩
      · rw [he] at hg
        cases hg
      · rw [he] at hg
        cases hg
        exact ⟨(k, v), by simp, hkey⟩
  · intro c key value h' hp hx
    obtain ⟨ps', hi, hr⟩ := hk.holds.put hp hx
    exact ⟨⟨ps', hi, hr.holds.pairs hp⟩, put_frame hp hx⟩
  · intro c key value b hp hc hkey hvalue hw hall
    obtain ⟨o, hf⟩ := hk.find hall
    have hz := hk.resizable b (Heap.writable_eq_ok_iff.1 hw).1
    exact hk.holds.put_ok hp hc hkey hvalue hw hz hf
  · exact fun c key value e h' hx => atomic_put c key value h e h' hx
  · intro c key found h' hp hx
    obtain ⟨ps', hd, hr⟩ := hk.holds.remove hp hx
    refine ⟨⟨ps', hd, ?_⟩, remove_frame hp hx⟩
    cases found with
    | true => exact (Rewritten.holds hr).pairs hp
    | false =>
      cases hd with
      | absent =>
        rw [show h' = h from hr]
        exact hk.holds.pairs hp
  · intro c key b hp hc hw hall
    obtain ⟨o, hf⟩ := hk.find hall
    have hz := hk.resizable b (Heap.writable_eq_ok_iff.1 hw).1
    exact hk.holds.remove_ok hp hc hw hz hf
  · exact fun c key e h' hx => atomic_remove c key h e h' hx

end Ordered

/-- A map is an insertion-ordered finite map all along, as `Ordered` says in full, and making a
map of pairs is putting them one by one. -/
theorem insertion_ordered {id : BufferId} {h : Heap} {evs : List Event} (hc : Course id h evs) :
    (∃ ps, Ordered h id evs ps) ∧
    ∀ config before entries,
      Alike (make entries ((Heap.new config).run before))
        (ofPuts entries ((Heap.new config).run before)) ∧
      ∀ c h', make entries ((Heap.new config).run before) = .ok c h' →
        ∃ j, pairlist c = .ok j ∧ ∀ i ≠ j,
          h'.buffer? i = ((Heap.new config).run before).buffer? i := by
  obtain ⟨ps, hk⟩ := hc.kept
  refine ⟨⟨ps, hk.ordered⟩, ?_⟩
  intro config before entries
  refine ⟨make_alike entries _, ?_⟩
  intro c h' hx
  obtain ⟨j, hp, _, hframe⟩ := make_frame (Heap.reachable_sound config before) hx
  exact ⟨j, hp, hframe⟩

/-- Two texts of the same characters are one key, of which the first cell is kept. -/
theorem insertion_ordered_texts :
    let a := Cell.bare .text (.series ⟨0, 0⟩ 0)
    let b := Cell.bare .text (.series ⟨1, 0⟩ 0)
    let map := Cell.bare .map (.map ⟨2, 0⟩)
    let before := (Heap.new {}).run [.makeString .text "k", .makeString .text "k"]
    let made := (make [(a, .comma), (.integer 5, .blank)]).after before
    let h := (put map b (.integer 7)).after made
    let evs := [.put b (.integer 7), .put (.integer 5) .blank, .put a .comma]
    Course ⟨2, 0⟩ h evs ∧ pairs h map = .ok [(a, .integer 7), (.integer 5, .blank)] ∧
      ∃ ps, Ordered h ⟨2, 0⟩ evs ps := by
  intro a b map before made h evs
  have hmake : make [(a, .comma), (.integer 5, .blank)] before = .ok map made :=
    HeapM.eq_ok_after (by decide +kernel)
  have hread : ∀ e ∈ [(a, Cell.comma), (.integer 5, .blank)], ∀ j, keyBuffer? e.1 = some j →
      before.isReadable j = true := by
    intro e he j hj
    rcases List.mem_pair.1 he with rfl | rfl <;> cases hj
    rfl
  have hmade := Course.made hmake rfl hread
  have hput : put map b (.integer 7) made = .ok () h := HeapM.eq_ok_after (by decide +kernel)
  have hsteady : ∀ e ∈ evs, Steady made h e.key := by
    intro e he j hj
    simp only [evs, List.mem_cons, List.not_mem_nil, or_false] at he
    rcases he with rfl | rfl | rfl <;> cases hj <;> decide +kernel
  have hcourse : Course ⟨2, 0⟩ h evs := hmade.put rfl hput hsteady
  exact ⟨hcourse, by decide +kernel, (insertion_ordered hcourse).1⟩

/-- A key that stands past the end of its text cannot be compared: no look-up gets past it. -/
theorem stale_key_blocks :
    let text := Cell.bare .text (.series ⟨0, 0⟩ 0)
    let tail := Cell.bare .text (.series ⟨0, 0⟩ 2)
    let sought := Cell.bare .text (.series ⟨1, 0⟩ 0)
    let map := Cell.bare .map (.map ⟨2, 0⟩)
    let before := (Heap.new {}).run
      [.makeString .text "ab", .truncate text 0, .makeString .text "zz"]
    let h := (make [(tail, .integer 1)]).after before
    Course ⟨2, 0⟩ h [.put tail (.integer 1)] ∧ h.isReadable ⟨0, 0⟩ = true ∧
      h.isReadable ⟨1, 0⟩ = true ∧ get? h map sought = .error (.outOfRange 2 0) := by
  intro text tail sought map before h
  have hmake : make [(tail, .integer 1)] before = .ok map h :=
    HeapM.eq_ok_after (by decide +kernel)
  have hread : ∀ e ∈ [(tail, Cell.integer 1)], ∀ j, keyBuffer? e.1 = some j →
      before.isReadable j = true := by
    intro e he j hj
    rw [List.mem_singleton.1 he] at hj
    cases hj
    decide +kernel
  exact ⟨.made hmake rfl hread, by decide +kernel, by decide +kernel, by decide +kernel⟩

end CellHeap.Map
