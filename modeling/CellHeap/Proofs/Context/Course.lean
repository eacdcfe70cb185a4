import CellHeap.Proofs.Context.History
import CellHeap.Proofs.Heap.Lifetime
import CellHeap.Proofs.Session.Header

/-!
# The life of a context

A context is made from a list of variables, then written, written one step up,
extended and protected, through any cells that name its slots. Steps may fail, and
other operations may come between, as long as they leave its two buffers alone. All
along its keys are those of its history in the order of their first occurrence, and
under each stands the value given last. `insertion_ordered_slots` says so, and what
each step does to the slots, the keys and the other buffers.
-/

set_option autoImplicit false

namespace CellHeap.Context

open HeapM

inductive Course (id names : BufferId) : Heap → List Event → Prop
  | made {config : Config} {before : List Operation} {kind : Kind} {vars : List (Symbol × Cell)}
      {c : Cell} {h' : Heap} (hx : make kind vars ((Heap.new config).run before) = .ok c h')
      (hv : varlist c = .ok id) (hn : keylist h' id = .ok names) :
      Course id names h' (additions vars)
  | framed {config : Config} {before : List Operation} {lens : Lens} {vars : List (Symbol × Cell)}
      {c : Cell} {h' : Heap} (hx : Frame.make vars lens ((Heap.new config).run before) = .ok c h')
      (hv : varlist c = .ok id) (hn : keylist h' id = .ok names) :
      Course id names h' (additions vars)
  | done {h h' : Heap} {evs : List Event} {c : Cell} (e : Event) (hc : Course id names h evs)
      (hv : varlist c = .ok id) (hx : e.perform c h = .ok () h') : Course id names h' (e :: evs)
  | failed {h h' : Heap} {evs : List Event} {c : Cell} {f : Fault} (e : Event)
      (hc : Course id names h evs) (hv : varlist c = .ok id)
      (hx : e.perform c h = .error f h') : Course id names h' evs
  | other {h : Heap} {evs : List Event} (op : Operation) (hc : Course id names h evs)
      (hslots : (op.after h).contents id = h.contents id)
      (hwords : (op.after h).contents names = h.contents names) :
      Course id names (op.after h) evs

section Steps

variable {h h' : Heap} {id names : BufferId} {c : Cell} {key : Symbol} {value old : Cell}
variable {t : List (Symbol × Cell)} {e : Event} {evs : List Event}

/-- A step that succeeds makes of the slot of its key what its event says. -/
theorem Holds.perform {u : Unit} (hh : Holds h id names t) (hv : varlist c = .ok id)
    (hx : e.perform c h = .ok u h') :
    ∃ new, e.result (t.lookup e.key) = some new ∧ Holds h' id names (put e.key new t) := by
  have hwrite : ∀ {k v}, Context.write c k v h = .ok u h' →
      ∃ old, t.lookup k = some old ∧ Holds h' id names (put k (v.copyInto old) t) := by
    intro k v hx
    obtain ⟨old, new, hold, hnew, hh', _⟩ := hh.modify hv hx
    obtain ⟨_, _, rfl⟩ := Cell.assign_eq_ok hnew
    exact ⟨old, hold, hh'⟩
  cases e with
  | write k v =>
    obtain ⟨old, hold, hh'⟩ := hwrite hx
    exact ⟨_, by simp [Event.key, Event.result, hold], hh'⟩
  | writeMeta k v =>
    obtain ⟨old, new, hold, hnew, hh', _⟩ := hh.modify hv hx
    obtain ⟨_, d, hd, rfl⟩ := Cell.assignMeta_eq_ok hnew
    exact ⟨_, by simp [Event.key, Event.result, hold, hd, Except.toOption], hh'⟩
  | lock k on =>
    obtain ⟨old, new, hold, hnew, hh', _⟩ := hh.modify hv hx
    cases hnew
    exact ⟨_, by simp [Event.key, Event.result, hold], hh'⟩
  | append k v =>
    have hx' : Context.append c k v h = .ok u h' := hx
    by_cases hk : k ∈ t.map (·.1)
    · rw [hh.append_of_mem hv hk] at hx'
      obtain ⟨old, hold, hh'⟩ := hwrite hx'
      exact ⟨_, by simp [Event.key, Event.result, hold], hh'⟩
    · rcases hh.append_of_not_mem hv hk v with ⟨f, hf, _⟩ | ⟨g, hg, hh', _⟩
      · rw [hf] at hx'
        cases hx'
      · rw [hg] at hx'
        cases hx'
        exact ⟨_, by simp [Event.key, Event.result, lookup_eq_none_iff.2 hk], hh'⟩

theorem Holds.perform_fault {f : Fault} (hh : Holds h id names t) (hv : varlist c = .ok id)
    (hx : e.perform c h = .error f h') : h' = h := by
  cases e with
  | write k v => exact atomic_modify c k _ h f h' hx
  | writeMeta k v => exact atomic_modify c k _ h f h' hx
  | lock k on => exact atomic_modify c k _ h f h' hx
  | append k v =>
    have hx' : Context.append c k v h = .error f h' := hx
    by_cases hk : k ∈ t.map (·.1)
    · rw [hh.append_of_mem hv hk] at hx'
      exact atomic_modify c k _ h f h' hx'
    · rcases hh.append_of_not_mem hv hk v with ⟨f', hf, _⟩ | ⟨g, hg, _⟩
      · rw [hf] at hx'
        cases hx'
        rfl
      · rw [hg] at hx'
        cases hx'

/-- An operation that leaves the contents of both buffers alone leaves the table alone: neither
the keys of a buffer nor its size limit ever change. -/
theorem Holds.other (op : Operation) (hh : Holds h id names t)
    (hslots : (op.after h).contents id = h.contents id)
    (hwords : (op.after h).contents names = h.contents names) :
    Holds (op.after h) id names t := by
  obtain ⟨b, hr, hkeylist, hsize, hb⟩ := hh.slots
  obtain ⟨w, hwr, hwsize, hw⟩ := hh.words
  rw [Heap.contents_of_read hr, hb] at hslots
  rw [Heap.contents_of_read hwr, hw] at hwords
  obtain ⟨b', hr', hb'⟩ := Heap.read_of_contents hslots
  obtain ⟨w', hwr', hw'⟩ := Heap.read_of_contents hwords
  have hfixed : ∀ {j x x'}, h.read j = .ok x → (op.after h).read j = .ok x' →
      x.fixedSize = false → x'.fixedSize = false := by
    intro j x x' hx hx' hz
    exact Heap.after_keeps (P := fun c => c.fixedSize = false)
      (fun _ _ _ hf hc => hf.fixedSize.trans hc) op hh.sound (Heap.buffer?_of_read hx) hz
      (Heap.buffer?_of_read hx')
  have hkeys : b'.keylist = some names := by
    obtain ⟨hbuf, hl⟩ := Heap.read_eq_ok_iff.1 hr'
    have hkept := Heap.after_keeps (P := fun c => c.liveness ≠ .decayed → c.keylist = some names)
      (fun _ x x' hf hx hl => by
        obtain ⟨hk, hl'⟩ := hf.keylist hl
        rw [hk, hx hl']) op hh.sound (Heap.buffer?_of_read hr) (fun _ => hkeylist) hbuf
    exact hkept hl
  exact ⟨Heap.after_sound op hh.sound, hh.apart, ⟨b', hr', hkeys, hfixed hr hr' hsize, hb'⟩,
    ⟨w', hwr', hfixed hwr hwr' hwsize, hw'⟩⟩

theorem holds_of_makeVarlist {vars : List (Symbol × Cell)} (hs : h.Sound)
    (hx : makeVarlist vars h = .ok id h') (hn : Context.keylist h' id = .ok names) :
    Holds h' id names (table vars) := by
  obtain ⟨id', names', g, hx', hh, _⟩ := makeVarlist_apply hs (stable_of_makeVarlist hx)
  rw [hx] at hx'
  cases hx'
  rw [hh.keylist] at hn
  cases hn
  exact hh

/-- The table of a context keeps up with its history. -/
theorem Course.kept (hc : Course id names h evs) :
    ∃ t, Holds h id names t ∧ Tracks t evs := by
  induction hc with
  | @made _ _ _ vars _ _ hx hv hn | @framed _ _ _ vars _ _ hx hv hn =>
    obtain ⟨v, hm, rfl⟩ := of_wrap hx
    cases hv
    exact ⟨table vars, holds_of_makeVarlist (Heap.reachable_sound _ _) hm hn, tracks_table vars⟩
  | done e _ hv hx ih =>
    obtain ⟨t, hh, ht⟩ := ih
    obtain ⟨new, hnew, hh'⟩ := hh.perform hv hx
    exact ⟨_, hh', ht.step hnew⟩
  | failed e _ hv hx ih =>
    obtain ⟨t, hh, ht⟩ := ih
    rw [hh.perform_fault hv hx]
    exact ⟨t, hh, ht⟩
  | other op _ hslots hwords ih =>
    obtain ⟨t, hh, ht⟩ := ih
    exact ⟨t, hh.other op hslots hwords, ht⟩

end Steps

structure Replaced (h h' : Heap) (id : BufferId) (key : Symbol) (s : Cell) : Prop where
  read : ∀ c, varlist c = .ok id → Context.read h' c key = .ok s
  others : ∀ c k, varlist c = .ok id → k ≠ key → Context.read h' c k = Context.read h c k
  keys : ∀ c, varlist c = .ok id → Context.keys h' c = Context.keys h c
  buffers : ∀ j ≠ id, h'.buffer? j = h.buffer? j

structure Added (h h' : Heap) (id names : BufferId) (key : Symbol) (s : Cell) : Prop where
  read : ∀ c, varlist c = .ok id → Context.read h' c key = .ok s
  others : ∀ c k, varlist c = .ok id → k ≠ key → Context.read h' c k = Context.read h c k
  keys : ∀ c ks, varlist c = .ok id → Context.keys h c = .ok ks →
    Context.keys h' c = .ok (ks ++ [key])
  buffers : ∀ j ≠ id, j ≠ names → h'.buffer? j = h.buffer? j

def Refused (h : Heap) (id : BufferId) (c : Cell) (x : HeapM Unit) : Prop :=
  ∃ e, x h = .error e h ∧
    (c.isConst = false → ∀ b, h.writable id = .ok b → e = .slotProtected)

structure Ordered (h : Heap) (id names : BufferId) (evs : List Event) : Prop where
  keys : ∀ c, varlist c = .ok id → Context.keys h c = .ok (order evs)
  distinct : (order evs).Nodup
  words : h.contents names = .ok (.cells ((order evs).map .word))
  parallel : ∃ slots, h.contents id = .ok (.cells slots) ∧ slots.length = (order evs).length
  length : ∀ c, varlist c = .ok id → Context.length h c = .ok (order evs).length
  read : ∀ c key, varlist c = .ok id →
    Context.read h c key = (standing key evs).elim (.error .missingKey) .ok
  write : ∀ c key v h', varlist c = .ok id → Context.write c key v h = .ok () h' →
    Replaced h h' id key v.unflagged
  write_ok : ∀ c key v b, varlist c = .ok id → c.isConst = false → h.writable id = .ok b →
    key ∈ order evs → locked key evs = false → v.isUnstable = false →
    ∃ h', Context.write c key v h = .ok () h'
  writeMeta : ∀ c key v h', varlist c = .ok id → Context.writeMeta c key v h = .ok () h' →
    (∃ d, v.toMeta = .ok d ∧ Replaced h h' id key d.unflagged) ∧
      (v.Buildable → ∀ c', varlist c' = .ok id → Context.readMeta h' c' key = .ok v.unflagged)
  writeMeta_ok : ∀ c key v d b, varlist c = .ok id → c.isConst = false → h.writable id = .ok b →
    key ∈ order evs → locked key evs = false → v.toMeta = .ok d →
    ∃ h', Context.writeMeta c key v h = .ok () h'
  lock : ∀ c key on h', varlist c = .ok id → Context.setLocked c key on h = .ok () h' →
    ∃ s, Context.read h c key = .ok s ∧ Replaced h h' id key (s.setLocked on)
  lock_ok : ∀ c key on b, varlist c = .ok id → c.isConst = false → h.writable id = .ok b →
    key ∈ order evs → ∃ h', Context.setLocked c key on h = .ok () h'
  append_old : ∀ c key v, varlist c = .ok id → key ∈ order evs →
    Context.append c key v h = Context.write c key v h
  append_new : ∀ c key v h', varlist c = .ok id → key ∉ order evs →
    Context.append c key v h = .ok () h' → Added h h' id names key v.unflagged
  append_ok : ∀ c key v b w, varlist c = .ok id → c.isConst = false → h.writable id = .ok b →
    h.writable names = .ok w → key ∉ order evs → v.isUnstable = false →
    ∃ h', Context.append c key v h = .ok () h'
  refused : ∀ c key v, varlist c = .ok id → locked key evs = true →
    Refused h id c (Context.write c key v) ∧ Refused h id c (Context.writeMeta c key v)
  fault : ∀ e c f h', varlist c = .ok id → Event.perform c e h = .error f h' → h' = h

section Ordered

variable {h h' : Heap} {id names : BufferId} {c : Cell} {key : Symbol} {new old s v : Cell}
variable {t : List (Symbol × Cell)} {evs : List Event} {f : Cell → Except Fault Cell}

theorem Holds.read (hh : Holds h id names t) (hv : varlist c = .ok id) (key : Symbol) :
    Context.read h c key = find t key := by
  rw [read_eq_slot, hh.slot hv]

theorem find_put_self (key : Symbol) (s : Cell) (t : List (Symbol × Cell)) :
    find (put key s t) key = .ok s := by
  simp [find, lookup_put]

theorem find_put_of_ne {k : Symbol} (hk : k ≠ key) : find (put key s t) k = find t k := by
  simp [find, lookup_put, hk]

theorem Replaced.of_holds (hh : Holds h id names t) (hh' : Holds h' id names (put key s t))
    (hk : key ∈ t.map (·.1)) (hframe : ∀ j ≠ id, h'.buffer? j = h.buffer? j) :
    Replaced h h' id key s := by
  constructor
  · intro c hv
    rw [hh'.read hv, find_put_self]
  · intro c k hv hne
    rw [hh'.read hv, hh.read hv, find_put_of_ne hne]
  · intro c hv
    rw [hh'.keys hv, hh.keys hv, keys_put_of_mem hk]
  · exact hframe

theorem Added.of_holds (hh : Holds h id names t) (hh' : Holds h' id names (put key s t))
    (hk : key ∉ t.map (·.1)) (hframe : ∀ j ≠ id, j ≠ names → h'.buffer? j = h.buffer? j) :
    Added h h' id names key s := by
  constructor
  · intro c hv
    rw [hh'.read hv, find_put_self]
  · intro c k hv hne
    rw [hh'.read hv, hh.read hv, find_put_of_ne hne]
  · intro c ks hv hks
    rw [hh.keys hv] at hks
    cases hks
    rw [hh'.keys hv, keys_put, if_neg hk]
  · exact hframe

/-- A slot that refuses a change is the only one to blame, unless the view or the buffer is. -/
theorem Holds.refused (hh : Holds h id names t) (hv : varlist c = .ok id)
    (hk : t.lookup key = some old) (hf : f old = .error .slotProtected) :
    Refused h id c (Context.modify c key f) := by
  cases hx : Context.modify c key f h with
  | ok u h' =>
    obtain ⟨old', new, hk', hnew, _⟩ := hh.modify hv hx
    rw [hk] at hk'
    cases hk'
    rw [hf] at hnew
    cases hnew
  | error e h' =>
    have he := atomic_modify c key f h e h' hx
    subst he
    refine ⟨e, hx, ?_⟩
    intro hc b hw
    rw [(hh.modify_apply hv hc hk hw).2 _ hf] at hx
    cases hx
    rfl

theorem Holds.ordered (hh : Holds h id names t) (ht : Tracks t evs) : Ordered h id names evs := by
  have hmem : ∀ {k}, k ∈ order evs → ∃ old, t.lookup k = some old ∧ old.isLocked = locked k evs := by
    intro k hk
    rw [← ht.order] at hk
    obtain ⟨old, hold⟩ := lookup_of_mem hk
    exact ⟨old, hold, ht.isLocked hold⟩
  obtain ⟨b, hr, _, _, hb⟩ := hh.slots
  obtain ⟨w, hwr, _, hw⟩ := hh.words
  constructor
  case keys =>
    intro c hv
    rw [hh.keys hv, ht.order]
  case distinct =>
    rw [← ht.order]
    exact ht.distinct
  case words =>
    rw [Heap.contents_of_read hwr, hw, ← ht.order, List.map_map]
    rfl
  case parallel =>
    refine ⟨_, by rw [Heap.contents_of_read hr, hb], ?_⟩
    rw [← ht.order, List.length_map, List.length_map]
  case length =>
    intro c hv
    rw [hh.length hv, ← ht.order, List.length_map]
  case read =>
    intro c key hv
    rw [hh.read hv, find, ht.current]
    cases standing key evs <;> rfl
  case write =>
    intro c key v h' hv hx
    obtain ⟨old, new, hold, hnew, hh', hframe⟩ := hh.modify hv hx
    obtain ⟨hl, _, rfl⟩ := Cell.assign_eq_ok hnew
    rw [Cell.copyInto_eq, hl] at hh'
    exact .of_holds hh hh' (mem_of_lookup hold) hframe
  case write_ok =>
    intro c key v b hv hc hw hk hl hs
    obtain ⟨old, hold, hlock⟩ := hmem hk
    apply (hh.modify_apply hv hc hold hw).1 (v.copyInto old)
    simp [Variable.assign, Variable.checkWritable, Variable.checkStable, hlock, hl, hs]
  case writeMeta =>
    intro c key v h' hv hx
    obtain ⟨old, new, hold, hnew, hh', hframe⟩ := hh.modify hv hx
    obtain ⟨hl, d, hd, rfl⟩ := Cell.assignMeta_eq_ok hnew
    rw [Cell.copyInto_eq, hl] at hh'
    refine ⟨⟨d, hd, .of_holds hh hh' (mem_of_lookup hold) hframe⟩, ?_⟩
    intro hbuild c' hv'
    rw [readMeta, hh'.slot hv', find_put_self]
    have hdown := hbuild.coherent.readMeta_unflagged hd
    exact hdown
  case writeMeta_ok =>
    intro c key v d b hv hc hw hk hl hd
    obtain ⟨old, hold, hlock⟩ := hmem hk
    apply (hh.modify_apply hv hc hold hw).1 (d.copyInto old)
    simp [Variable.assignMeta, Variable.checkWritable, hlock, hl, hd]
  case lock =>
    intro c key on h' hv hx
    obtain ⟨old, new, hold, hnew, hh', hframe⟩ := hh.modify hv hx
    cases hnew
    refine ⟨old, ?_, .of_holds hh hh' (mem_of_lookup hold) hframe⟩
    rw [hh.read hv, find, hold]
  case lock_ok =>
    intro c key on b hv hc hw hk
    obtain ⟨old, hold, _⟩ := hmem hk
    exact (hh.modify_apply hv hc hold hw).1 (old.setLocked on) rfl
  case append_old =>
    intro c key v hv hk
    rw [← ht.order] at hk
    exact hh.append_of_mem hv hk
  case append_new =>
    intro c key v h' hv hk hx
    rw [← ht.order] at hk
    rcases hh.append_of_not_mem hv hk v with ⟨f, hf, _⟩ | ⟨g, hg, hh', hframe⟩
    · rw [hf] at hx
      cases hx
    · rw [hg] at hx
      cases hx
      exact .of_holds hh hh' hk hframe
  case append_ok =>
    intro c key v b w hv hc hwb hww hk hs
    rw [← ht.order] at hk
    rcases hh.append_of_not_mem hv hk v with ⟨f, _, hwhy⟩ | ⟨g, hg, _⟩
    · rw [hc, hs, hwb, hww] at hwhy
      simp at hwhy
    · exact ⟨g, hg⟩
  case refused =>
    intro c key v hv hl
    have hk : key ∈ order evs := by
      by_contra hk
      rw [locked_of_not_mem (mt mem_order.2 hk)] at hl
      cases hl
    obtain ⟨old, hold, hlock⟩ := hmem hk
    constructor
    · exact hh.refused hv hold (by simp [Variable.assign, Variable.checkWritable, hlock, hl])
    · exact hh.refused hv hold (by simp [Variable.assignMeta, Variable.checkWritable, hlock, hl])
  case fault =>
    exact fun e c f h' hv hx => hh.perform_fault hv hx

end Ordered

def Makes (h : Heap) (kind : Kind) (lens : Lens) (vars : List (Symbol × Cell)) : Prop :=
  ∃ id names h', make kind vars h = .ok (.bare kind (.context id)) h' ∧
    Frame.make vars lens h = .ok (.bare .frame (.frame id lens)) h' ∧
    (∀ c, varlist c = .ok id → Context.keys h' c = .ok (vars.map (·.1)).eraseDups ∧
      (∀ before k v after, vars = before ++ (k, v) :: after → k ∉ after.map (·.1) →
        Context.read h' c k = .ok v.unflagged) ∧
      ∀ k ∉ vars.map (·.1), Context.read h' c k = .error .missingKey) ∧
    ∀ j ≠ id, j ≠ names → h'.buffer? j = h.buffer? j

theorem makes_of_stable {h : Heap} (hs : h.Sound) (kind : Kind) (lens : Lens)
    {vars : List (Symbol × Cell)} (hstable : ∀ e ∈ vars, e.2.isUnstable = false) :
    Makes h kind lens vars := by
  obtain ⟨id, names, h', hx, hh, hframe⟩ := makeVarlist_apply hs hstable
  have ho := hh.ordered (tracks_table vars)
  refine ⟨id, names, h', ?_, ?_, ?_, hframe⟩
  · simp only [make, bind_apply, hx]
    rfl
  · simp only [Frame.make, bind_apply, hx]
    rfl
  · intro c hv
    refine ⟨?_, ?_, ?_⟩
    · rw [ho.keys c hv, order_additions]
    · rintro before k v after rfl hk
      rw [ho.read c k hv, standing_additions v hk]
      rfl
    · intro k hk
      rw [ho.read c k hv, standing_of_not_mem (by simpa [keys_additions] using hk)]
      rfl

/-- A context is an insertion-ordered finite map from symbols to slots, as `Makes` says of a new
one and `Ordered` of every one all along. -/
theorem insertion_ordered_slots {id names : BufferId} {h : Heap} {evs : List Event}
    (hc : Course id names h evs) :
    Ordered h id names evs ∧ ∀ config before kind lens vars,
      (∀ e ∈ vars, e.2.isUnstable = false) →
        Makes ((Heap.new config).run before) kind lens vars := by
  obtain ⟨t, hh, ht⟩ := hc.kept
  refine ⟨hh.ordered ht, ?_⟩
  intro config before kind lens vars hstable
  exact makes_of_stable (Heap.reachable_sound config before) kind lens hstable

/-- A repeated key keeps its first position and its last value, and a new one goes to the end. -/
theorem insertion_ordered_slots_object :
    let object := Cell.bare .object (.context ⟨1, 0⟩)
    let vars := [(⟨0⟩, .integer 1), (⟨1⟩, .blank), (⟨0⟩, .integer 2)]
    let made := (make .object vars).after (Heap.new {})
    let kept := (setLocked object ⟨0⟩ true).after made
    let h := (append object ⟨2⟩ .trash).after kept
    let evs := .append ⟨2⟩ .trash :: .lock ⟨0⟩ true :: additions vars
    Course ⟨1, 0⟩ ⟨0, 0⟩ h evs ∧ keys h object = .ok [⟨0⟩, ⟨1⟩, ⟨2⟩] ∧
      read h object ⟨0⟩ = .ok ((Cell.integer 2).setLocked true) ∧
      Ordered h ⟨1, 0⟩ ⟨0, 0⟩ evs := by
  intro object vars made kept h evs
  have hmake : make .object vars ((Heap.new {}).run []) = .ok object made :=
    HeapM.eq_ok_after (by decide +kernel)
  have hlock : Event.perform object (.lock ⟨0⟩ true) made = .ok () kept :=
    HeapM.eq_ok_after (by decide +kernel)
  have happend : Event.perform object (.append ⟨2⟩ .trash) kept = .ok () h :=
    HeapM.eq_ok_after (by decide +kernel)
  have hmade : Course ⟨1, 0⟩ ⟨0, 0⟩ made (additions vars) :=
    .made hmake rfl (by decide +kernel)
  have hcourse : Course ⟨1, 0⟩ ⟨0, 0⟩ h evs := .done _ (.done _ hmade rfl hlock) rfl happend
  exact ⟨hcourse, by decide +kernel, by decide +kernel, (insertion_ordered_slots hcourse).1⟩

/-- A protected cell is not read back as it was given: its protection does not travel. -/
theorem protection_stays_behind :
    let value := (Cell.integer 1).setLocked true
    let object := Cell.bare .object (.context ⟨1, 0⟩)
    let h := (make .object [(⟨0⟩, value)]).after (Heap.new {})
    value.isUnstable = false ∧ make .object [(⟨0⟩, value)] (Heap.new {}) = .ok object h ∧
      read h object ⟨0⟩ = .ok (.integer 1) ∧ Cell.integer 1 ≠ value := by
  intro value object h
  exact ⟨rfl, HeapM.eq_ok_after (by decide +kernel), by decide +kernel, by decide⟩

end CellHeap.Context
