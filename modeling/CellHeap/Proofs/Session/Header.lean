import CellHeap.Proofs.Session.Payload

/-!
# Headers in sessions

An antiform, a quasiform or a quoted quasiform is of a kind that has an antiform
and carries no sigil; a sigil stands on a kind that takes sigils, and a binding on
a kind that can be bound. Operations on headers check this where it could break,
so it holds of every cell of every session. One consequence is that every value
stored one step up comes back when it is taken one step down.
-/

set_option autoImplicit false

namespace CellHeap

namespace Lift

variable {l l' : Lift} {n : Nat}

theorem quotedOver_eq_ok {q : Bool} (hl : quotedOver q n = .ok l') :
    ∃ d, l' = .quoted d q ∧ d.level = n := by
  unfold quotedOver at hl
  cases hd : QuoteDepth.ofNat? n with
  | none =>
    rw [hd] at hl
    cases hl
  | some d =>
    rw [hd] at hl
    cases hl
    exact ⟨d, rfl, QuoteDepth.level_of_ofNat? hd⟩

/-- Quoting does not change what stands under the quotes. -/
theorem base_quotify (hl : l.quotify n = .ok l') : l'.base = l.base := by
  unfold quotify at hl
  by_cases hn : n = 0
  · rw [if_pos hn] at hl
    cases hl
    rfl
  · rw [if_neg hn] at hl
    cases l with
    | anti => cases hl
    | plain | quasi =>
      obtain ⟨d, rfl, _⟩ := quotedOver_eq_ok hl
      rfl
    | quoted d q =>
      obtain ⟨d', rfl, _⟩ := quotedOver_eq_ok hl
      cases q <;> rfl

theorem base_unquotify (hl : l.unquotify n = .ok l') : l'.base = l.base := by
  unfold unquotify at hl
  by_cases hn : n = 0
  · rw [if_pos hn] at hl
    cases hl
    rfl
  rw [if_neg hn] at hl
  by_cases hd : l.depth < n
  · rw [if_pos hd] at hl
    cases hl
  rw [if_neg hd] at hl
  cases hq : QuoteDepth.ofNat? (l.depth - n) with
  | none =>
    rw [hq] at hl
    cases hl
    cases l with
    | quoted d q => cases q <;> rfl
    | _ => rfl
  | some d =>
    rw [hq] at hl
    cases hl
    cases l with
    | quoted d' q => cases q <;> rfl
    | anti | plain | quasi => exact absurd (Nat.pos_of_ne_zero hn) hd

/-- One quote more and one less. -/
theorem unquotify_quotify (hl : l.quotify 1 = .ok l') :
    l'.unquotify 1 = .ok l ∧ (l' == .quasi) = false := by
  simp only [quotify, Nat.one_ne_zero, if_false] at hl
  cases l with
  | anti => cases hl
  | plain | quasi =>
    cases hl
    exact ⟨rfl, rfl⟩
  | quoted d q =>
    obtain ⟨d', rfl, hd'⟩ := quotedOver_eq_ok hl
    refine ⟨?_, rfl⟩
    have hback : d'.level - 1 = d.level := by omega
    have hnot : ¬ d'.level < 1 := by omega
    simp only [unquotify, depth_quoted, Nat.one_ne_zero, if_false, if_neg hnot, hback,
      QuoteDepth.ofNat?_level]
    cases q <;> rfl

end Lift

structure Cell.Coherent (c : Cell) : Prop where
  form : c.lift.base ≠ .plain → c.kind.antiform?.isSome = true ∧ c.sigil = none
  sigil : c.sigil.isSome = true → c.kind.isSigilable = true
  binding : c.binding.isSome = true → c.kind.isBindable = true

namespace Cell

variable {c d : Cell}

/-- Only the base of the lift, the sigil, the binding and the kind matter. -/
theorem Coherent.congr (hc : c.Coherent) (hk : d.kind = c.kind) (hl : d.lift.base = c.lift.base)
    (hs : d.sigil = c.sigil) (hb : d.binding = c.binding) : d.Coherent := by
  constructor
  · rw [hl, hk, hs]
    exact hc.form
  · rw [hs, hk]
    exact hc.sigil
  · rw [hb, hk]
    exact hc.binding

theorem coherent_bare (k : Kind) (p : Payload) : (bare k p).Coherent := by
  constructor
  · intro h
    exact absurd rfl h
  · intro h
    cases h
  · intro h
    cases h

/-- A cell of a kind with an antiform, without a sigil and a binding, under any lift. -/
theorem coherent_lifted {k : Kind} (hk : k.antiform?.isSome = true) (p : Payload) (l : Lift) :
    Coherent { bare k p with lift := l } := by
  constructor
  · exact fun _ => ⟨hk, rfl⟩
  · intro h
    cases h
  · intro h
    cases h

theorem Coherent.quotify {n : Nat} (hc : c.Coherent) (hd : c.quotify n = .ok d) : d.Coherent := by
  obtain ⟨l, hl, hd⟩ := bind_eq_ok_iff.1 hd
  cases hd
  exact hc.congr rfl (Lift.base_quotify hl) rfl rfl

theorem Coherent.unquotify {n : Nat} (hc : c.Coherent) (hd : c.unquotify n = .ok d) :
    d.Coherent := by
  obtain ⟨l, hl, hd⟩ := bind_eq_ok_iff.1 hd
  cases hd
  exact hc.congr rfl (Lift.base_unquotify hl) rfl rfl

/-- Another lift on a cell whose kind has an antiform and that carries no sigil. -/
theorem Coherent.relifted (hc : c.Coherent) (hk : c.kind.antiform?.isSome = true)
    (hs : c.sigil = none) (l : Lift) : Coherent { c with lift := l } :=
  ⟨fun _ => ⟨hk, hs⟩, hc.sigil, hc.binding⟩

theorem Coherent.toAntiform {accept : Accept} (hc : c.Coherent)
    (hd : c.toAntiform accept = .ok d) : d.Coherent := by
  obtain ⟨_, hk, hs, _, rfl⟩ := toAntiform_eq_ok_iff.1 hd
  exact hc.relifted hk hs .anti

theorem Coherent.antiform (hc : c.Coherent) (ha : c.isAntiform = true) :
    c.kind.antiform?.isSome = true ∧ c.sigil = none := by
  apply hc.form
  rw [show c.lift = .anti from beq_iff_eq.1 ha]
  intro h
  cases h

theorem Coherent.toMeta (hc : c.Coherent) (hd : c.toMeta = .ok d) : d.Coherent := by
  unfold Cell.toMeta at hd
  cases ha : c.isAntiform with
  | true =>
    rw [ha] at hd
    cases hd
    obtain ⟨hk, hs⟩ := hc.antiform ha
    exact hc.relifted hk hs .quasi
  | false =>
    rw [ha] at hd
    exact hc.quotify hd

theorem Coherent.ofMeta (hc : c.Coherent) (hd : c.ofMeta = .ok d) : d.Coherent := by
  unfold Cell.ofMeta at hd
  cases hq : c.isQuasiform with
  | true =>
    rw [hq] at hd
    exact hc.toAntiform hd
  | false =>
    rw [hq] at hd
    exact hc.unquotify hd

theorem Coherent.setSigil {s : Option Sigil} (hc : c.Coherent) (hd : c.setSigil s = .ok d) :
    d.Coherent := by
  obtain ⟨hs, rfl⟩ := setSigil_eq_ok_iff.1 hd
  refine ⟨fun hl => ⟨(hc.form hl).1, ?_⟩, fun hsome => (hs hsome).1, hc.binding⟩
  -- a sigil was refused over an antiform or a quasiform
  cases s with
  | none => rfl
  | some s => exact absurd (hs rfl).2 hl

theorem Coherent.setBinding {b : Option Binding} (hc : c.Coherent)
    (hd : c.setBinding b = .ok d) : d.Coherent := by
  obtain ⟨hb, rfl⟩ := setBinding_eq_ok_iff.1 hd
  exact ⟨hc.form, hc.sigil, hb⟩

theorem Coherent.withPayload (hc : c.Coherent) (p : Payload) : Coherent { c with payload := p } :=
  hc.congr rfl rfl rfl rfl

theorem Coherent.reworked {h : Heap} (hc : c.Coherent) (hd : c.Reworked h d) : d.Coherent := by
  cases hd with
  | quotify hd => exact hc.quotify hd
  | unquotify hd => exact hc.unquotify hd
  | toAntiform hd => exact hc.toAntiform hd
  | toQuasiform hd =>
    obtain ⟨_, hk, hs, rfl⟩ := toQuasiform_eq_ok_iff.1 hd
    exact hc.relifted hk hs .quasi
  | toMeta hd => exact hc.toMeta hd
  | ofMeta hd => exact hc.ofMeta hd
  | setSigil hd => exact hc.setSigil hd
  | setConst | setNewline | setLocked => exact hc.congr rfl rfl rfl rfl
  | setBinding hd => exact hc.setBinding hd
  | skip hd | tail hd =>
    obtain ⟨_, _, hd⟩ := bind_eq_ok_iff.1 hd
    obtain ⟨_, _, _, rfl⟩ := withIndex_eq_ok hd
    exact hc.withPayload _
  | head hd =>
    obtain ⟨_, _, _, rfl⟩ := withIndex_eq_ok hd
    exact hc.withPayload _
  | setLens hd =>
    obtain ⟨_, _, _, rfl⟩ := setLens_eq_ok hd
    exact hc.withPayload _
  | cacheLabel hd =>
    obtain ⟨_, _, hd⟩ := bind_eq_ok_iff.1 hd
    obtain ⟨_, _, _, rfl⟩ := setLens_eq_ok hd
    exact hc.withPayload _

theorem coherent_of_rune? {s : String} (hc : rune? s = some c) : c.Coherent := by
  obtain ⟨b, _, rfl⟩ := Option.map_eq_some_iff.1 hc
  exact coherent_bare _ _

theorem Primitive.coherent (hc : c.Primitive) : c.Coherent := by
  cases hc with
  | trash => exact coherent_lifted rfl .empty .anti
  | erased => exact (coherent_bare .blank .empty).congr rfl rfl rfl rfl
  | rune hc => exact coherent_of_rune? hc
  | runeChar ch =>
    unfold Cell.runeChar
    cases hr : rune? (String.singleton ch) with
    | some d => exact coherent_of_rune? hr
    | none => exact coherent_bare _ _
  | blank | comma | integer | decimal | percent | word | handle | parameter =>
    exact coherent_bare _ _

theorem coherent_of_made {op : Operation} {h h' : Heap} (hc : op.Makes h h' c) : c.Coherent := by
  cases hc with
  | keyword s sym => exact coherent_lifted rfl (.word sym) .anti
  | splice cs id => exact coherent_lifted rfl (.series id 0) .anti
  | rune hc => exact coherent_of_rune? hc
  | _ => exact coherent_bare _ _

/-- An element of a sequence is stored as it stands, but for a word that takes the binding. -/
theorem coherent_of_elementAt {h : Heap} {i : Nat} (hst : h.Stores fun _ d => d.Coherent)
    (hd : Sequence.elementAt h c i = .ok d) : d.Coherent := by
  obtain ⟨s, _, hd⟩ := bind_eq_ok_iff.1 hd
  obtain ⟨e, he, hd⟩ := bind_eq_ok_iff.1 hd
  cases hd
  obtain ⟨es, hes, he⟩ := bind_eq_ok_iff.1 he
  have hmem : e ∈ es := by
    cases hi : es[i]? with
    | none =>
      rw [hi] at he
      cases he
    | some x =>
      rw [hi] at he
      cases he
      exact List.mem_of_getElem? hi
  have hcoh : e.Coherent := by
    cases s with
    | bytes bs =>
      cases hes
      obtain ⟨x, _, rfl⟩ := List.mem_map.1 hmem
      exact coherent_bare _ _
    | word s side =>
      cases hes
      cases side <;> simp only [Sequence.wordElements, List.mem_cons, List.not_mem_nil,
        or_false] at hmem <;> rcases hmem with rfl | rfl <;> exact coherent_bare _ _
    | pair id | array id =>
      obtain ⟨b, hr, hb⟩ := bind_eq_ok_iff.1 hes
      exact hst id b (Heap.buffer?_of_read hr) e (Buffer.cells_eq_ok hb ▸ hmem)
  unfold Sequence.inherit
  by_cases hw : (e.kind == .word && e.binding.isNone) = true
  · rw [if_pos hw]
    have hk : e.kind = .word := beq_iff_eq.1 (Bool.and_eq_true_iff.1 hw).1
    exact ⟨hcoh.form, hcoh.sigil, fun _ => by rw [hk]; rfl⟩
  · rw [if_neg hw]
    exact hcoh

theorem coherent_invariant (admits : Heap → Operation → Prop) :
    Session.Invariant admits fun _ c => c.Coherent where
  step := fun _ _ _ hc => hc
  supplied := by
    intro _ given kept c hg hk hc
    cases hc with
    | kept hc => exact hk c hc
    | locked hc => exact (hk _ hc).congr rfl rfl rfl rfl
    | given hc => exact hg c hc
    | copied hc => exact (hg _ hc).congr rfl rfl rfl rfl
    | lifted hc hd => exact ((hg _ hc).toMeta hd).congr rfl rfl rfl rfl
    | key s => exact coherent_bare _ _
    | blank => exact coherent_bare _ _
  primitive := Primitive.coherent
  reworked := Coherent.reworked
  assigned := by
    intro _ slot value d hv hd
    rcases hd with hd | hd
    · obtain ⟨_, _, rfl⟩ := assign_eq_ok hd
      exact hv.congr rfl rfl rfl rfl
    · obtain ⟨_, l, hl, rfl⟩ := assignMeta_eq_ok hd
      exact (hv.toMeta hl).congr rfl rfl rfl rfl
  element := fun _ hst hd => coherent_of_elementAt hst hd
  made := fun _ _ _ _ hc => coherent_of_made hc

theorem Buildable.coherent (hc : c.Buildable) : c.Coherent := by
  obtain ⟨config, h, held, hs, hmem⟩ := hc
  exact (hs.keeps (coherent_invariant _)).2.2 c hmem

theorem toAntiform_any (c : Cell) (hk : c.kind.antiform?.isSome = true) (hs : c.sigil = none)
    (hq : c.isQuoted = false) : c.toAntiform .any = .ok { c with lift := .anti } := by
  refine toAntiform_eq_ok_iff.2 ⟨hq, hk, hs, ?_, rfl⟩
  rintro ⟨h, _⟩
  cases h

/-- One step up and one step down again. -/
theorem Coherent.ofMeta_toMeta (hc : c.Coherent) (hd : c.toMeta = .ok d) : d.ofMeta = .ok c := by
  unfold Cell.toMeta at hd
  cases ha : c.isAntiform with
  | true =>
    rw [ha] at hd
    cases hd
    obtain ⟨hk, hs⟩ := hc.antiform ha
    have hdown := toAntiform_any { c with lift := .quasi } hk hs rfl
    rwa [← show c.lift = .anti from beq_iff_eq.1 ha] at hdown
  | false =>
    rw [ha] at hd
    obtain ⟨l, hl, hd⟩ := bind_eq_ok_iff.1 hd
    cases hd
    obtain ⟨hdown, hquasi⟩ := Lift.unquotify_quotify hl
    simp only [Cell.ofMeta, isQuasiform, hquasi, Bool.false_eq_true, if_false, Cell.unquotify, hdown]
    rfl

theorem unflagged_toMeta (hd : c.toMeta = .ok d) : c.unflagged.toMeta = .ok d.unflagged := by
  unfold Cell.toMeta at hd ⊢
  cases ha : c.isAntiform with
  | true =>
    rw [ha] at hd
    cases hd
    rw [if_pos (show c.unflagged.isAntiform = true from ha)]
    rfl
  | false =>
    rw [ha] at hd
    obtain ⟨l, hl, hd⟩ := bind_eq_ok_iff.1 hd
    cases hd
    rw [if_neg (by rw [show c.unflagged.isAntiform = false from ha]; simp)]
    exact bind_eq_ok_iff.2 ⟨l, hl, rfl⟩

/-- What is stored one step up is read one step down, without the flags that stay behind. -/
theorem Coherent.readMeta_unflagged (hc : c.Coherent) (hd : c.toMeta = .ok d) :
    Variable.readMeta d.unflagged = .ok c.unflagged :=
  (hc.congr rfl rfl rfl rfl : c.unflagged.Coherent).ofMeta_toMeta (unflagged_toMeta hd)

end Cell

end CellHeap
