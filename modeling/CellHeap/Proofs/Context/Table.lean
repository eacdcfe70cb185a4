import CellHeap.Context.Frame
import CellHeap.Proofs.Buffer.Edited
import CellHeap.Proofs.Cell.Header
import CellHeap.Proofs.Heap.Arena

/-!
# Contexts as tables

The slots of a context and the words that name them are two buffers. Read
together they are one table from symbols to slots. A write replaces one slot of
the table in place, and a new key goes to the end with its slot. Both buffers
grow together: once the words have grown the slots cannot fail to.
-/

set_option autoImplicit false

namespace CellHeap.Context

open HeapM

section Put

variable {key k : Symbol} {old new : Cell} {t pre post : List (Symbol × Cell)}

theorem cut_of_mem (hk : key ∈ t.map (·.1)) :
    ∃ pre old post, t = pre ++ (key, old) :: post ∧ key ∉ pre.map (·.1) := by
  induction t with
  | nil => simp at hk
  | cons p t ih =>
    rcases p with ⟨k, v⟩
    by_cases hkk : k = key
    · subst hkk
      exact ⟨[], v, t, rfl, by simp⟩
    · have hrest : key ∈ t.map (·.1) := by simpa [Ne.symm hkk] using hk
      obtain ⟨pre, old, post, rfl, hpre⟩ := ih hrest
      refine ⟨(k, v) :: pre, old, post, rfl, ?_⟩
      simpa [Ne.symm hkk] using hpre

theorem put_cut (hpre : key ∉ pre.map (·.1)) :
    put key new (pre ++ (key, old) :: post) = pre ++ (key, new) :: post := by
  induction pre with
  | nil => simp [put]
  | cons p pre ih =>
    rcases p with ⟨k, v⟩
    rw [List.map_cons, List.mem_cons, not_or] at hpre
    simp only [List.cons_append, put, if_neg (Ne.symm hpre.1), ih hpre.2]

theorem put_of_not_mem (hk : key ∉ t.map (·.1)) : put key new t = t ++ [(key, new)] := by
  induction t with
  | nil => rfl
  | cons p t ih =>
    rcases p with ⟨k, v⟩
    rw [List.map_cons, List.mem_cons, not_or] at hk
    simp only [List.cons_append, put, if_neg (Ne.symm hk.1), ih hk.2]

theorem lookup_cons_of_ne (hk : k ≠ key) : ((key, old) :: t).lookup k = t.lookup k := by
  simp [List.lookup_cons, beq_eq_false_iff_ne.2 hk]

theorem lookup_put (key k : Symbol) (new : Cell) (t : List (Symbol × Cell)) :
    (put key new t).lookup k = if k = key then some new else t.lookup k := by
  by_cases hk : k = key
  · subst hk
    rw [if_pos rfl]
    induction t with
    | nil => simp [put]
    | cons p t ih =>
      rcases p with ⟨k', v⟩
      by_cases hkk : k' = k
      · simp [put, hkk]
      · rw [put, if_neg hkk, lookup_cons_of_ne (Ne.symm hkk), ih]
  · rw [if_neg hk]
    induction t with
    | nil => rw [put, lookup_cons_of_ne hk]
    | cons p t ih =>
      rcases p with ⟨k', v⟩
      by_cases hkk : k' = key
      · rw [put, if_pos hkk, hkk, lookup_cons_of_ne hk, lookup_cons_of_ne hk]
      · rw [put, if_neg hkk, List.lookup_cons, List.lookup_cons, ih]

theorem lookup_cut (hpre : key ∉ pre.map (·.1)) :
    (pre ++ (key, old) :: post).lookup key = some old := by
  have hput : put key old (pre ++ (key, old) :: post) = pre ++ (key, old) :: post := put_cut hpre
  rw [← hput, lookup_put, if_pos rfl]

theorem lookup_eq_none_iff : t.lookup key = none ↔ key ∉ t.map (·.1) := by
  rw [List.lookup_eq_none_iff, List.mem_map]
  constructor
  · rintro hall ⟨p, hp, rfl⟩
    simpa using hall p hp
  · intro hnone p hp
    exact bne_iff_ne.2 fun hk => hnone ⟨p, hp, hk.symm⟩

theorem mem_of_lookup (hk : t.lookup key = some old) : key ∈ t.map (·.1) := by
  by_contra hnot
  rw [lookup_eq_none_iff.2 hnot] at hk
  cases hk

theorem lookup_of_mem (hk : key ∈ t.map (·.1)) : ∃ old, t.lookup key = some old := by
  cases hold : t.lookup key with
  | some old => exact ⟨old, rfl⟩
  | none => exact absurd hk (lookup_eq_none_iff.1 hold)

theorem keys_put_of_mem (hk : key ∈ t.map (·.1)) : (put key new t).map (·.1) = t.map (·.1) := by
  obtain ⟨pre, old, post, rfl, hpre⟩ := cut_of_mem hk
  simp [put_cut hpre]

theorem keys_put (key : Symbol) (new : Cell) (t : List (Symbol × Cell)) :
    (put key new t).map (·.1) = t.map (·.1) ++ if key ∈ t.map (·.1) then [] else [key] := by
  by_cases hk : key ∈ t.map (·.1)
  · rw [keys_put_of_mem hk, if_pos hk, List.append_nil]
  · rw [put_of_not_mem hk, if_neg hk, List.map_append]
    rfl

theorem nodup_put (hn : (t.map (·.1)).Nodup) : ((put key new t).map (·.1)).Nodup := by
  by_cases hk : key ∈ t.map (·.1)
  · rwa [keys_put_of_mem hk]
  · rw [put_of_not_mem hk, List.map_append]
    exact hn.append (by simp) (by simpa using hk)

end Put

def find (t : List (Symbol × Cell)) (key : Symbol) : Except Fault Cell :=
  match t.lookup key with
  | some s => .ok s
  | none => .error .missingKey

structure Holds (h : Heap) (id names : BufferId) (t : List (Symbol × Cell)) : Prop where
  sound : h.Sound
  apart : id ≠ names
  slots : ∃ b, h.read id = .ok b ∧ b.keylist = some names ∧ b.fixedSize = false ∧
    b.contents = .cells (t.map (·.2))
  words : ∃ b, h.read names = .ok b ∧ b.fixedSize = false ∧
    b.contents = .cells (t.map fun p => .word p.1)

section Readers

variable {h : Heap} {id names : BufferId} {c : Cell} {key : Symbol}
variable {t pre post : List (Symbol × Cell)} {old : Cell}

theorem Holds.keylist (hh : Holds h id names t) : keylist h id = .ok names := by
  obtain ⟨b, hr, hk, _⟩ := hh.slots
  simp [Context.keylist, hr, hk]

theorem Holds.keyCells (hh : Holds h id names t) :
    keyCells h id = .ok (t.map fun p => .word p.1) := by
  obtain ⟨b, hr, _, hb⟩ := hh.words
  simp [Context.keyCells, hh.keylist, hr, Buffer.cells, hb]

theorem findIdx?_words (key : Symbol) (t : List (Symbol × Cell)) :
    (t.map fun p => Cell.word p.1).findIdx? (·.symbol? == some key) =
      t.findIdx? fun p => p.1 == key := by
  rw [List.findIdx?_map]
  rfl

theorem Holds.position_cut (hh : Holds h id names (pre ++ (key, old) :: post))
    (hpre : key ∉ pre.map (·.1)) : position h id key = .ok pre.length := by
  have hnone : pre.findIdx? (fun p => p.1 == key) = none := by
    rw [List.findIdx?_eq_none_iff]
    intro p hp
    exact beq_eq_false_iff_ne.2 fun hk => hpre (hk ▸ List.mem_map_of_mem hp)
  have hidx : (pre ++ (key, old) :: post).findIdx? (fun p => p.1 == key) = some pre.length := by
    simp [List.findIdx?_append, List.findIdx?_cons, hnone]
  simp only [position, position?, hh.keyCells, findIdx?_words, hidx, ok_bind, pure_eq_ok]

theorem Holds.position_of_not_mem (hh : Holds h id names t) (hk : key ∉ t.map (·.1)) :
    position h id key = .error .missingKey := by
  have hnone : t.findIdx? (fun p => p.1 == key) = none := by
    rw [List.findIdx?_eq_none_iff]
    intro p hp
    exact beq_eq_false_iff_ne.2 fun he => hk (he ▸ List.mem_map_of_mem hp)
  simp only [position, position?, hh.keyCells, findIdx?_words, hnone, ok_bind, pure_eq_ok,
    throw_eq_error]

theorem Holds.slot (hh : Holds h id names t) (hv : varlist c = .ok id) (key : Symbol) :
    slot h c key = find t key := by
  unfold find
  by_cases hk : key ∈ t.map (·.1)
  · obtain ⟨pre, old, post, rfl, hpre⟩ := cut_of_mem hk
    obtain ⟨b, hr, _, _, hb⟩ := hh.slots
    simp [Context.slot, hv, hh.position_cut hpre, hr, Buffer.cells, hb, lookup_cut hpre]
  · simp [Context.slot, hv, hh.position_of_not_mem hk, lookup_eq_none_iff.2 hk]

theorem Holds.keys (hh : Holds h id names t) (hv : varlist c = .ok id) :
    Context.keys h c = .ok (t.map (·.1)) := by
  have hsymbols : (t.map fun p => Cell.word p.1).filterMap Cell.symbol? = t.map (·.1) := by
    rw [List.filterMap_map]
    exact congrFun List.filterMap_eq_map t
  simp only [Context.keys, hv, hh.keyCells, hsymbols, ok_bind, pure_eq_ok]

theorem Holds.length (hh : Holds h id names t) (hv : varlist c = .ok id) :
    length h c = .ok t.length := by
  obtain ⟨b, hr, _, _, hb⟩ := hh.slots
  simp [Context.length, hv, hr, Buffer.length, hb, Contents.length]

theorem Holds.hasKey (hh : Holds h id names t) (hv : varlist c = .ok id) (key : Symbol) :
    hasKey h c key = .ok (decide (key ∈ t.map (·.1))) := by
  by_cases hk : key ∈ t.map (·.1)
  · rw [decide_eq_true hk]
    obtain ⟨pre, old, post, rfl, hpre⟩ := cut_of_mem hk
    simp [Context.hasKey, hv, hh.position_cut hpre]
  · rw [decide_eq_false hk]
    simp [Context.hasKey, hv, hh.position_of_not_mem hk]

end Readers

section Writers

variable {h h' : Heap} {id names : BufferId} {c : Cell} {key : Symbol} {value old new : Cell}
variable {t : List (Symbol × Cell)} {b : Buffer} {f : Cell → Except Fault Cell}

/-- The slots alone have changed, and the keys stand as they did. -/
theorem Holds.replaced {t' : List (Symbol × Cell)} (hh : Holds h id names t)
    (hr : h.read id = .ok b) (hkeys : t'.map (·.1) = t.map (·.1)) :
    Holds (h.setBuffer id (b.withContents (.cells (t'.map (·.2))))) id names t' := by
  obtain ⟨b₀, hr₀, hkeylist, hsize, _⟩ := hh.slots
  rw [hr] at hr₀
  cases hr₀
  obtain ⟨hb, hl⟩ := Heap.read_eq_ok_iff.1 hr
  obtain ⟨w, hw, hwsize, hwords⟩ := hh.words
  obtain ⟨hwb, hwl⟩ := Heap.read_eq_ok_iff.1 hw
  refine ⟨Heap.sound_setBuffer hh.sound hb _, hh.apart,
    ⟨b.withContents (.cells (t'.map (·.2))), ?_, hkeylist, hsize, rfl⟩, ⟨w, ?_, hwsize, ?_⟩⟩
  · apply Heap.read_eq_ok_iff.2
    rw [Heap.buffer?_setBuffer hb, if_pos rfl]
    exact ⟨rfl, hl⟩
  · apply Heap.read_eq_ok_iff.2
    rw [Heap.buffer?_setBuffer hb, if_neg (Ne.symm hh.apart)]
    exact ⟨hwb, hwl⟩
  · have hmap : ∀ u : List (Symbol × Cell),
        (u.map fun p => Cell.word p.1) = (u.map (·.1)).map Cell.word := by simp
    rw [hwords, hmap, hmap, hkeys]

theorem read_eq_slot (h : Heap) (c : Cell) (key : Symbol) : read h c key = slot h c key := by
  unfold read
  cases slot h c key <;> rfl

theorem modifySlot_cut {pre post : List (Symbol × Cell)}
    (hb : b.contents = .cells ((pre ++ (key, old) :: post).map (·.2))) :
    b.modifySlot pre.length f = (f old).map fun new =>
      b.withContents (.cells ((pre ++ (key, new) :: post).map (·.2))) := by
  simp only [Buffer.modifySlot, Buffer.array, hb, ok_bind]
  cases hf : f old <;> simp [Except.map, hf]

/-- A change of a slot replaces what stands under the key. -/
theorem Holds.modify {u : Unit} (hh : Holds h id names t) (hv : varlist c = .ok id)
    (hx : modify c key f h = .ok u h') :
    ∃ old new, t.lookup key = some old ∧ f old = .ok new ∧ Holds h' id names (put key new t) ∧
      ∀ j ≠ id, h'.buffer? j = h.buffer? j := by
  unfold Context.modify at hx
  by_cases hc : c.isConst = true
  · simp only [hc, if_true] at hx
    cases hx
  simp only [hc, Bool.false_eq_true, if_false] at hx
  obtain ⟨id', hv', hx⟩ := of_checked hx
  rw [hv] at hv'
  cases hv'
  obtain ⟨i, hi, hx⟩ := of_reading hx
  by_cases hk : key ∈ t.map (·.1)
  · obtain ⟨pre, old, post, rfl, hpre⟩ := cut_of_mem hk
    rw [hh.position_cut hpre] at hi
    cases hi
    obtain ⟨b, b', hw, hb', rfl⟩ := of_edit hx
    have hr := (Heap.writable_eq_ok_iff.1 hw).1
    obtain ⟨b₀, hr₀, _, _, hb⟩ := hh.slots
    rw [hr] at hr₀
    cases hr₀
    rw [modifySlot_cut hb] at hb'
    cases hf : f old with
    | error e =>
      rw [hf] at hb'
      cases hb'
    | ok new =>
      rw [hf] at hb'
      cases hb'
      refine ⟨old, new, lookup_cut hpre, hf, ?_, Heap.edit_frame hx⟩
      rw [put_cut hpre]
      exact hh.replaced hr (by simp)
  · rw [hh.position_of_not_mem hk] at hi
    cases hi

/-- The outcome of a change of a slot that nothing but the slot itself can refuse. -/
theorem Holds.modify_apply (hh : Holds h id names t) (hv : varlist c = .ok id)
    (hc : c.isConst = false) (hk : t.lookup key = some old) (hw : h.writable id = .ok b) :
    (∀ new, f old = .ok new → ∃ h', Context.modify c key f h = .ok () h') ∧
      ∀ e, f old = .error e → Context.modify c key f h = .error e h := by
  obtain ⟨pre, old', post, rfl, hpre⟩ := cut_of_mem (mem_of_lookup hk)
  rw [lookup_cut hpre] at hk
  cases hk
  obtain ⟨b₀, hr₀, _, _, hb⟩ := hh.slots
  rw [(Heap.writable_eq_ok_iff.1 hw).1] at hr₀
  cases hr₀
  have hx : Context.modify c key f h = edit id (·.modifySlot pre.length f) h := by
    simp only [Context.modify, hc, Bool.false_eq_true, if_false]
    rw [checked_of_ok hv, reading_of_ok (hh.position_cut hpre)]
  rw [hx]
  constructor
  · intro new hf
    exact ⟨_, edit_of_writable hw (by rw [modifySlot_cut hb, hf]; rfl)⟩
  · intro e hf
    simp [edit, hw, modifySlot_cut hb, hf, Except.map]

theorem atomic_modify (c : Cell) (key : Symbol) (f : Cell → Except Fault Cell) :
    Atomic (modify c key f) := by
  unfold modify
  by_cases hc : c.isConst = true
  · simp only [hc, if_true]
    exact atomic_throw _
  · simp only [hc, Bool.false_eq_true, if_false]
    apply atomic_checked
    intro id
    apply atomic_reading
    intro i
    exact atomic_edit id _

theorem Holds.append_of_mem (hh : Holds h id names t) (hv : varlist c = .ok id)
    (hk : key ∈ t.map (·.1)) : append c key value h = write c key value h := by
  have hkey := hh.hasKey hv key
  rw [decide_eq_true hk] at hkey
  unfold append
  rw [reading_of_ok hkey, if_pos rfl]

theorem pushSlot_of_cells {cs : List Cell} (hb : b.contents = .cells cs)
    (hz : b.fixedSize = false) (d : Cell) :
    b.pushSlot d = .ok (b.withContents (.cells (cs ++ [d]))) := by
  simp [Buffer.pushSlot, Buffer.checkResizable, hz, Buffer.array, hb]

def grow (id names : BufferId) (key : Symbol) (s : Cell) : HeapM Unit := do
  edit names (·.pushSlot (.word key))
  edit id (·.pushSlot s)

theorem Holds.grow {w : Buffer} (hh : Holds h id names t) (hw : h.writable id = .ok b)
    (hkw : h.writable names = .ok w) (key : Symbol) (s : Cell) :
    ∃ h', grow id names key s h = .ok () h' ∧ Holds h' id names (t ++ [(key, s)]) ∧
      ∀ j ≠ id, j ≠ names → h'.buffer? j = h.buffer? j := by
  obtain ⟨hr, hz⟩ := Heap.writable_eq_ok_iff.1 hw
  obtain ⟨hkr, _⟩ := Heap.writable_eq_ok_iff.1 hkw
  obtain ⟨hb, hl⟩ := Heap.read_eq_ok_iff.1 hr
  obtain ⟨hkb, hkl⟩ := Heap.read_eq_ok_iff.1 hkr
  obtain ⟨b₀, hr₀, hkeylist, hsize, hslots⟩ := hh.slots
  obtain ⟨w₀, hkr₀, hksize, hwords⟩ := hh.words
  rw [hr] at hr₀
  cases hr₀
  rw [hkr] at hkr₀
  cases hkr₀
  have hkpush := pushSlot_of_cells hwords hksize (.word key)
  have hpush := pushSlot_of_cells hslots hsize s
  generalize hw' : w.withContents (.cells ((t.map fun p => Cell.word p.1) ++ [.word key])) = w'
    at hkpush
  generalize hb' : b.withContents (.cells (t.map (·.2) ++ [s])) = b' at hpush
  have hmid : (h.setBuffer names w').buffer? id = some b := by
    rw [Heap.buffer?_setBuffer hkb, if_neg hh.apart, hb]
  have hmidw : (h.setBuffer names w').writable id = .ok b :=
    Heap.writable_eq_ok_iff.2 ⟨Heap.read_eq_ok_iff.2 ⟨hmid, hl⟩, hz⟩
  have hkedit : edit names (·.pushSlot (.word key)) h = .ok () (h.setBuffer names w') :=
    edit_of_writable hkw hkpush
  have hedit : edit id (·.pushSlot s) (h.setBuffer names w') =
      .ok () ((h.setBuffer names w').setBuffer id b') := edit_of_writable hmidw hpush
  have hlook : ∀ j, ((h.setBuffer names w').setBuffer id b').buffer? j =
      if j = id then some b' else if j = names then some w' else h.buffer? j := by
    intro j
    rw [Heap.buffer?_setBuffer hmid, Heap.buffer?_setBuffer hkb]
  refine ⟨(h.setBuffer names w').setBuffer id b', ?_, ?_, ?_⟩
  · simp only [Context.grow, bind_apply, hkedit, hedit]
  · refine ⟨?_, hh.apart, ⟨b', ?_, ?_⟩, ⟨w', ?_, ?_⟩⟩
    · exact Heap.sound_setBuffer (Heap.sound_setBuffer hh.sound hkb _) hmid _
    · apply Heap.read_eq_ok_iff.2
      rw [hlook, if_pos rfl, ← hb']
      exact ⟨rfl, hl⟩
    · rw [← hb']
      exact ⟨hkeylist, hsize, by simp [Buffer.withContents]⟩
    · apply Heap.read_eq_ok_iff.2
      rw [hlook, if_neg (Ne.symm hh.apart), if_pos rfl, ← hw']
      exact ⟨rfl, hkl⟩
    · rw [← hw']
      exact ⟨hksize, by simp [Buffer.withContents]⟩
  · intro j hj hjk
    rw [hlook, if_neg hj, if_neg hjk]

/-- A key that is not there goes to the end, and a failure changes nothing. -/
theorem Holds.append_of_not_mem (hh : Holds h id names t) (hv : varlist c = .ok id)
    (hk : key ∉ t.map (·.1)) (value : Cell) :
    (∃ e, append c key value h = .error e h ∧ (c.isConst = true ∨ value.isUnstable = true ∨
      h.writable id = .error e ∨ h.writable names = .error e)) ∨
    ∃ h', append c key value h = .ok () h' ∧
      Holds h' id names (put key (Variable.fresh value) t) ∧
      ∀ j ≠ id, j ≠ names → h'.buffer? j = h.buffer? j := by
  have hkey := hh.hasKey hv key
  rw [decide_eq_false hk] at hkey
  unfold append
  rw [reading_of_ok hkey]
  cases hc : c.isConst with
  | true => exact Or.inl ⟨.constView, rfl, Or.inl rfl⟩
  | false =>
    simp only [Bool.false_eq_true, if_false]
    cases hu : value.isUnstable with
    | true =>
      have hs : Variable.checkStable value = .error (.unstableAntiform value.kind) := by
        simp [Variable.checkStable, hu]
      exact Or.inl ⟨_, checked_of_error hs _ h, Or.inr (Or.inl rfl)⟩
    | false =>
      have hs : Variable.checkStable value = .ok () := by simp [Variable.checkStable, hu]
      rw [checked_of_ok hs, checked_of_ok hv, reading_of_ok hh.keylist]
      cases hw : h.writable id with
      | error e =>
        exact Or.inl ⟨e, reading_of_error hw _, Or.inr (Or.inr (Or.inl rfl))⟩
      | ok b =>
        rw [reading_of_ok hw]
        cases hkw : h.writable names with
        | error e =>
          refine Or.inl ⟨e, ?_, Or.inr (Or.inr (Or.inr rfl))⟩
          simp [bind_apply, edit, hkw]
        | ok w =>
          rw [put_of_not_mem hk]
          exact Or.inr (hh.grow hw hkw key _)

end Writers

section Making

variable {h : Heap} {vars : List (Symbol × Cell)}

theorem table_append (vars : List (Symbol × Cell)) (e : Symbol × Cell) :
    table (vars ++ [e]) = put e.1 (Variable.fresh e.2) (table vars) := by
  rcases e with ⟨k, v⟩
  simp [table]

/-- Two new buffers hold the table, and nothing else changes. -/
theorem makeVarlist_apply (hs : h.Sound) (hv : ∀ e ∈ vars, e.2.isUnstable = false) :
    ∃ id names h', makeVarlist vars h = .ok id h' ∧ Holds h' id names (table vars) ∧
      ∀ j ≠ id, j ≠ names → h'.buffer? j = h.buffer? j := by
  have hcheck : ∀ e ∈ vars, Variable.checkStable e.2 = .ok () := by
    intro e he
    simp [Variable.checkStable, hv e he]
  generalize ht : table vars = t
  obtain ⟨names, h₁, hplace⟩ : ∃ names h₁,
      Heap.allocateManaged (.cells (t.map fun p => .word p.1)) h = .ok names h₁ := ⟨_, _, rfl⟩
  obtain ⟨id, h₂, hplace'⟩ : ∃ id h₂, place { (Buffer.ofContents (.cells (t.map (·.2)))).toManaged
      with keylist := some names } h₁ = .ok id h₂ := ⟨_, _, rfl⟩
  obtain ⟨hs₁, _, hbuffer⟩ := Heap.of_placed hs hplace
  obtain ⟨hs₂, hnew, hbuffer'⟩ := Heap.of_placed hs₁ hplace'
  have hapart : id ≠ names := by
    rintro rfl
    exact hnew (Heap.issued_of_buffer? ((hbuffer id).trans (if_pos rfl)))
  refine ⟨id, names, h₂, ?_, ?_, ?_⟩
  · unfold makeVarlist
    rw [checked_of_ok (forM_of_forall hcheck), ht]
    exact (bind_apply _ _ _).trans (by rw [hplace]; exact hplace')
  · have hslots := Heap.read_of_placed hs₁ hplace' (by simp [Buffer.toManaged])
    have hwords := Heap.read_of_placed hs hplace (by simp [Buffer.toManaged])
    obtain ⟨hwb, hwl⟩ := Heap.read_eq_ok_iff.1 hwords
    refine ⟨hs₂, hapart, ⟨_, hslots, rfl, rfl, rfl⟩, ⟨_, Heap.read_eq_ok_iff.2 ⟨?_, hwl⟩, rfl, rfl⟩⟩
    rw [hbuffer', if_neg (Ne.symm hapart), hwb]
  · intro j hj hjn
    rw [hbuffer', if_neg hj, hbuffer, if_neg hjn]

theorem stable_of_makeVarlist {h' : Heap} {id : BufferId} (hx : makeVarlist vars h = .ok id h') :
    ∀ e ∈ vars, e.2.isUnstable = false := by
  obtain ⟨_, hcheck, _⟩ := of_checked hx
  exact fun e he => Variable.checkStable_eq_ok (forM_eq_ok hcheck e he)

end Making

end CellHeap.Context
