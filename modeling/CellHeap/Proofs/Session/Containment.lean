import CellHeap.Proofs.Session.Invariant

/-!
# Antiforms are contained

Lists and variables stand in the same sort of buffer under different disciplines:
no antiform in a list, no unstable one in a variable. Operations that make lists
check the cells that they are given, and so do edits through a series, a map or a
key; a write to a variable admits more, but only into a buffer that was made with
keys. So a buffer keeps the discipline that it was made under for as long as it is
in its slot, through whatever cells it is edited, stale ones included.
-/

set_option autoImplicit false

namespace CellHeap

open HeapM

def Operation.Adds (op : Operation) (h : Heap) (id : BufferId) : Prop :=
  h.buffer? id = none ∧ ((op.after h).buffer? id).isSome = true

structure Buffer.Follows (d : Discipline) (b : Buffer) : Prop where
  admits : ∀ c ∈ b.stored, d.Admits c
  keyless : d = .list → b.keylist = none

namespace Buffer

variable {d : Discipline} {b b' : Buffer}

theorem Follows.toSlots (hb : b.Follows .list) : b.Follows .slots :=
  ⟨fun c hc => Cell.isUnstable_of_isElement (hb.admits c hc), nofun⟩

/-- What enters a buffer by an edit is fit for it: only a buffer with keys is written as variables. -/
theorem Follows.edited {P : Cell → Prop} (hb : b.Follows d) (he : Edited P b b')
    (hn : ∀ c ∈ b'.stored, b.Enters c) : b'.Follows d := by
  have hkeys : b'.keylist = b.keylist := by rw [he.frame]
  refine ⟨fun c hc => ?_, fun hd => hkeys.trans (hb.keyless hd)⟩
  cases hn c hc with
  | kept hc => exact hb.admits c hc
  | locked hkept on =>
    have hold := hb.admits _ hkept
    cases d <;> exact hold
  | element hc =>
    cases d with
    | list => exact hc
    | slots => exact Cell.isUnstable_of_isElement hc
  | assigned hc hkeyed =>
    cases d with
    | list =>
      rw [hb.keyless rfl] at hkeyed
      cases hkeyed
    | slots => exact hc

theorem follows_released (d : Discipline) (b : Buffer) :
    Follows d { b.release with liveness := .decayed } := by
  refine ⟨fun c hc => ?_, fun _ => rfl⟩
  rw [Contents.blank_of_mem_empty hc]
  cases d <;> rfl

end Buffer

theorem Fate.follows {d : Discipline} {op : Operation} {id : BufferId} {b b' : Buffer}
    (hf : Fate op id b (some b')) (hb : b.Follows d) : b'.Follows d := by
  cases hf with
  | same => exact hb
  | edited _ _ _ he hn => exact hb.edited he hn
  | managed => exact ⟨hb.admits, hb.keyless⟩
  | frozen => exact ⟨hb.admits, hb.keyless⟩
  | decayed => exact Buffer.follows_released d b

/-- No buffer is given keys later on. -/
theorem Fate.keylist_of_some {op : Operation} {id k : BufferId} {b b' : Buffer}
    (hf : Fate op id b (some b')) (hk : b'.keylist = some k) : b.keylist = some k := by
  cases hf with
  | edited _ _ _ he =>
    rw [he.frame] at hk
    exact hk
  | decayed => cases hk
  | _ => exact hk

/-- A list of variables and the list of its keys, in place of nothing. -/
theorem Context.buffers_of_makeVarlist {h h' : Heap} {vars : List (Symbol × Cell)} {v : BufferId}
    (hs : h.Sound) (hx : makeVarlist vars h = .ok v h') :
    ∃ k keys slots, v ≠ k ∧ slots.keylist = some k ∧ slots.Follows .slots ∧ keys.Follows .list ∧
      ∀ j, h'.buffer? j =
        if j = v then some slots else if j = k then some keys else h.buffer? j := by
  obtain ⟨_, hcheck, hx⟩ := of_checked hx
  obtain ⟨k, g, hk, hx⟩ := of_bind hx
  obtain ⟨hgs, _, hg⟩ := Heap.of_placed hs hk
  obtain ⟨_, hnew, hh'⟩ := Heap.of_placed hgs hx
  have hne : v ≠ k := by
    rintro rfl
    exact hnew (Heap.issued_of_buffer? ((hg v).trans (if_pos rfl)))
  let keys := (Buffer.ofContents (.cells ((table vars).map fun kv => .word kv.1))).toManaged
  let slots : Buffer :=
    { (Buffer.ofContents (.cells ((table vars).map (·.2)))).toManaged with keylist := some k }
  have hkeys : keys.Follows .list := by
    refine ⟨fun c hc => ?_, fun _ => rfl⟩
    obtain ⟨kv, _, rfl⟩ := List.mem_map.1 hc
    rfl
  have hslots : slots.Follows .slots := by
    refine ⟨fun c hc => ?_, nofun⟩
    obtain ⟨value, hvalue, rfl⟩ := mem_table hc
    obtain ⟨kv, hkv, rfl⟩ := List.mem_map.1 hvalue
    exact Variable.checkStable_eq_ok (forM_eq_ok hcheck kv hkv)
  refine ⟨k, keys, slots, hne, rfl, hslots, hkeys, fun j => ?_⟩
  rw [hh' j, hg j]

theorem Context.atomic_makeVarlist (vars : List (Symbol × Cell)) : Atomic (makeVarlist vars) := by
  apply atomic_checked
  intro _ h e h' hx
  cases hx

namespace Heap

variable {d : Discipline} {h h' : Heap} {id : BufferId} {op : Operation} {b : Buffer}

/-- What holds of a buffer as an operation places it, and is kept by every fate, holds of it when
the operation is through. -/
theorem after_placed {P : Buffer → Prop} (hnew : ∀ b, op.Places b → P b)
    (hfate : ∀ b b', Fate op id b (some b') → P b → P b') (hs : h.Sound)
    (hid : h.buffer? id = none) (hb : (op.after h).buffer? id = some b) : P b := by
  have hall := after_induction (fun g => g.Sound ∧ ∀ c, g.buffer? id = some c → P c) op
    ⟨hs, fun c hc => by simp [hid] at hc⟩ (by
      rintro g g' ⟨hgs, hg⟩ hstep
      refine ⟨step_sound hgs hstep, fun c' hc' => ?_⟩
      rcases step_origin hgs hstep hc' with ⟨c, hc, hf⟩ | hplaced
      · exact hfate c c' hf (hg c hc)
      · exact hnew c' hplaced)
  exact hall.2 b hb

theorem lists_follow (hs : h.Sound) (hd : op.discipline = some .list) (hid : h.buffer? id = none)
    (hb : (op.after h).buffer? id = some b) : b.Follows .list :=
  after_placed (fun _ hplaced => ⟨hplaced.elements hd, fun _ => hplaced.keyless (by simp [hd])⟩)
    (fun _ _ hf => hf.follows) hs hid hb

/-- Only the making of a context places a buffer with keys. -/
theorem discipline_of_keylist {k : BufferId} (hs : h.Sound) (hid : h.buffer? id = none)
    (hb : (op.after h).buffer? id = some b) (hk : b.keylist = some k) :
    op.discipline = some .slots := by
  by_contra hd
  have hnone : b.keylist ≠ some k :=
    after_placed (P := fun c => c.keylist ≠ some k) (fun _ hplaced => by simp [hplaced.keyless hd])
      (fun _ _ hf hne hk => hne (hf.keylist_of_some hk)) hs hid hb
  exact hnone hk

/-- Making a context adds a list of variables and the list of its keys, or fails at once. -/
theorem after_variables (hs : h.Sound) (hd : op.discipline = some .slots) :
    op.after h = h ∨ ∃ v k keys slots, v ≠ k ∧ slots.keylist = some k ∧ slots.Follows .slots ∧
      keys.Follows .list ∧ ∀ j, (op.after h).buffer? j =
        if j = v then some slots else if j = k then some keys else h.buffer? j := by
  obtain ⟨vars, hvars⟩ : ∃ vars, op.after h = (Context.makeVarlist vars).after h := by
    cases op with
    | makeContext k vars =>
      refine ⟨vars, ?_⟩
      rw [← after_perform]
      exact (after_map _ _ _).trans (after_wrap _ _ _)
    | makeFrame vars l =>
      refine ⟨vars, ?_⟩
      rw [← after_perform]
      exact (after_map _ _ _).trans (after_wrap _ _ _)
    | _ => cases hd
  rw [hvars]
  cases hx : Context.makeVarlist vars h with
  | error e h' =>
    rw [after_of_error hx]
    exact Or.inl (Context.atomic_makeVarlist vars h e h' hx)
  | ok v h' =>
    rw [after_of_ok hx]
    exact Or.inr ⟨v, Context.buffers_of_makeVarlist hs hx⟩

/-- What making a context adds: a buffer without keys for the keys, and one with keys. -/
theorem variables_follow (hs : h.Sound) (hd : op.discipline = some .slots)
    (hid : h.buffer? id = none) (hb : (op.after h).buffer? id = some b) :
    b.Follows .slots ∧ ∀ k, b.keylist = some k →
      ∃ keys, (op.after h).buffer? k = some keys ∧ keys.Follows .list := by
  rcases after_variables hs hd with hsame | ⟨v, k, keys, slots, hne, hkeys, hslots, hlist, hbuffer⟩
  · rw [hsame, hid] at hb
    cases hb
  · rw [hbuffer] at hb
    by_cases hv : id = v
    · rw [if_pos hv] at hb
      cases hb
      refine ⟨hslots, fun k' hk' => ⟨keys, ?_, hlist⟩⟩
      cases hkeys.symm.trans hk'
      rw [hbuffer, if_neg hne.symm, if_pos rfl]
    · rw [if_neg hv] at hb
      by_cases hk : id = k
      · rw [if_pos hk] at hb
        cases hb
        refine ⟨hlist.toSlots, fun k' hk' => ?_⟩
        rw [hlist.keyless rfl] at hk'
        cases hk'
      · rw [if_neg hk, hid] at hb
        cases hb

end Heap

namespace Session

/-- A buffer stays under its discipline for as long as the session retains it. -/
theorem follows_later {d : Discipline} {id : BufferId} {b : Buffer} {s t : Heap × List Cell}
    (hs : s.1.Sound) (hb : s.1.buffer? id = some b) (hd : b.Follows d)
    (hl : Later (Operation.Retains id) s t) :
    t.1.Sound ∧ ∃ b', t.1.buffer? id = some b' ∧ b'.Follows d := by
  induction hl with
  | refl => exact ⟨hs, b, hb, hd⟩
  | tail _ hm ih =>
    cases hm with
    | perform hop hc =>
      obtain ⟨hsound, c, hc, hfollows⟩ := ih
      obtain ⟨c', hc'⟩ := Option.isSome_iff_exists.1 hop
      have hfollows' := Heap.after_keeps (fun _ _ _ hf => hf.follows) _ hsound hc hfollows hc'
      exact ⟨Heap.after_sound _ hsound, c', hc', hfollows'⟩
    | _ => exact ih

/-- As long as it is there, a buffer placed by an operation that makes a list never holds an
antiform, and one placed by an operation that makes a context no unstable antiform. A buffer that
keys of variables stand in never holds an antiform either. -/
theorem antiforms_contained {config : Config} {h : Heap} {held : List Cell}
    (hs : Session (fun _ _ => True) config h held) :
    (∀ (op : Operation) (d : Discipline) (id : BufferId),
      op.discipline = some d → (∀ c ∈ op.cells, c ∈ held) → op.Adds h id →
      ∀ h' held' b, Later (Operation.Retains id) (op.after h, op.made h ++ held) (h', held') →
        h'.buffer? id = some b → ∀ c ∈ b.stored, d.Admits c) ∧
    ∀ (op : Operation) (v : BufferId) (vars : Buffer) (keys : BufferId),
      (∀ c ∈ op.cells, c ∈ held) → op.Adds h v → (op.after h).buffer? v = some vars →
      vars.keylist = some keys →
      ∀ h' held' b, Later (Operation.Retains keys) (op.after h, op.made h ++ held) (h', held') →
        h'.buffer? keys = some b → ∀ c ∈ b.stored, c.isElement = true := by
  have hsound := hs.sound
  constructor
  · intro op d id hd _ hid h' held' b hl hb
    obtain ⟨b₁, hb₁⟩ := Option.isSome_iff_exists.1 hid.2
    have hfollows : b₁.Follows d := by
      cases d with
      | list => exact Heap.lists_follow hsound hd hid.1 hb₁
      | slots => exact (Heap.variables_follow hsound hd hid.1 hb₁).1
    obtain ⟨_, b', hb', hlater⟩ := follows_later (Heap.after_sound op hsound) hb₁ hfollows hl
    cases hb'.symm.trans hb
    exact hlater.admits
  · intro op v vars keys _ hid hv hk h' held' b hl hb
    have hd := Heap.discipline_of_keylist hsound hid.1 hv hk
    obtain ⟨b₁, hb₁, hfollows⟩ := (Heap.variables_follow hsound hd hid.1 hv).2 keys hk
    obtain ⟨_, b', hb', hlater⟩ := follows_later (Heap.after_sound op hsound) hb₁ hfollows hl
    cases hb'.symm.trans hb
    exact hlater.admits

/-- A variable that holds a stable antiform refuses an unstable one. -/
theorem antiforms_contained_object :
    let ghost := { Cell.comma with lift := .anti }
    let object := Cell.bare .object (.context ⟨1, 0⟩)
    let h := (Operation.makeContext .object [(⟨0⟩, .trash)]).after (.new {})
    let h' := (Operation.writeVariable object ⟨0⟩ ghost).after h
    Session (fun _ _ => True) {} (.new {}) [.trash, ghost, .comma] ∧
    (∃ b, h'.buffer? ⟨1, 0⟩ = some b ∧ b.stored = [.trash] ∧
      ∀ c ∈ b.stored, c.isUnstable = false) ∧
    ∃ b, h'.buffer? ⟨0, 0⟩ = some b ∧ b.stored = [.word ⟨0⟩] ∧
      ∀ c ∈ b.stored, c.isElement = true := by
  intro ghost object h h'
  have hcomma : Session (fun _ _ => True) {} (.new {}) [.comma] := .primitive .start .comma
  have hanti : Cell.comma.toAntiform .any = .ok ghost := rfl
  have hghost : Session (fun _ _ => True) {} (.new {}) [ghost, .comma] :=
    hcomma.rework (by simp) (.toAntiform hanti)
  have htrash : Session (fun _ _ => True) {} (.new {}) [.trash, ghost, .comma] :=
    hghost.primitive .trash
  have hmake : ∀ c ∈ (Operation.makeContext .object [(⟨0⟩, .trash)]).cells,
      c ∈ [.trash, ghost, .comma] := by simp [Operation.cells]
  have hwrite : ∀ id, (h'.buffer? id).isSome = true →
      Later (Operation.Retains id) (h, [object, .trash, ghost, .comma])
        (h', [object, .trash, ghost, .comma]) := fun id hid =>
    .single (@Move.perform _ _ _ (.writeVariable object ⟨0⟩ ghost) hid (by simp [Operation.cells]))
  have hadds : (Operation.makeContext .object [(⟨0⟩, .trash)]).Adds (.new {}) ⟨1, 0⟩ := ⟨rfl, rfl⟩
  refine ⟨htrash, ⟨_, rfl, rfl, ?_⟩, ⟨_, rfl, rfl, ?_⟩⟩
  · exact (antiforms_contained htrash).1 _ .slots _ rfl hmake hadds h' _ _ (hwrite _ rfl) rfl
  · exact (antiforms_contained htrash).2 _ ⟨1, 0⟩ _ _ hmake hadds rfl rfl h' _ _ (hwrite _ rfl) rfl

end Session

end CellHeap
