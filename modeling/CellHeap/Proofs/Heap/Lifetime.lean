import CellHeap.Proofs.Heap.Generation

/-!
# The lifetime of a buffer

What a run can do to one buffer. As long as a buffer is present its handle names it
and nothing else, managing and freezing are never undone, and only a sweep that does
not mark it takes a managed buffer away. In a run that advances, an issued handle
whose buffer is gone, or has decayed, stays without one, whatever later fills the
slot.
-/

set_option autoImplicit false

namespace CellHeap

open Buffer

inductive Fate (op : Operation) (id : BufferId) (b : Buffer) : Option Buffer → Prop
  | same : Fate op id b (some b)
  | edited (b' : Buffer) (hl : b.liveness ≠ .decayed) (hf : b.frozen = false)
      (he : Edited (Supplied op.cells b.stored) b b')
      (hn : ∀ c ∈ b'.stored, b.Enters c) : Fate op id b (some b')
  | managed (hl : b.liveness ≠ .decayed) (hm : b.managed = false) : Fate op id b (some b.toManaged)
  | frozen (hl : b.liveness ≠ .decayed) : Fate op id b (some { b with frozen := true })
  | decayed (hl : b.liveness ≠ .decayed) (hop : op.Decays id) :
      Fate op id b (some { b.release with liveness := .decayed })
  | released (hop : op = .release id) (hm : b.managed = false) : Fate op id b none
  | swept (marked : BufferId → Bool) (hop : op = .sweep marked) (hu : marked id = false)
      (hm : b.managed = true) : Fate op id b none

namespace Heap

variable {op : Operation} {h h' : Heap} {id : BufferId} {b : Buffer}

theorem step_sound (hs : h.Sound) (hstep : op.Step h h') : h'.Sound := by
  cases hstep with
  | intern s => exact ⟨hs.nodup, hs.mem_free⟩
  | place b => exact sound_place hs b
  | edit id b b' hb => exact sound_setBuffer hs (buffer?_of_read (writable_eq_ok_iff.1 hb).1) b'
  | manage id b hb => exact sound_setBuffer hs (buffer?_of_read hb) _
  | freeze id b hb => exact sound_setBuffer hs (buffer?_of_read hb) _
  | decay id b _ hb => exact sound_setBuffer hs (buffer?_of_read hb) _
  | release id b _ hb => exact sound_vacate hs hb
  | sweep _ id b _ hb => exact sound_vacate hs hb

theorem step_issued (hs : h.Sound) (hi : h.Issued id) (hstep : op.Step h h')
    (ha : h.Advances h') : h'.Issued id := by
  cases hstep with
  | intern s => exact hi
  | place b => exact (issued_place hs b id).2 (Or.inr hi)
  | edit j b b' hb =>
    exact (issued_setBuffer (buffer?_of_read (writable_eq_ok_iff.1 hb).1) b' id).2 hi
  | manage j b hb => exact (issued_setBuffer (buffer?_of_read hb) _ id).2 hi
  | freeze j b hb => exact (issued_setBuffer (buffer?_of_read hb) _ id).2 hi
  | decay j b _ hb => exact (issued_setBuffer (buffer?_of_read hb) _ id).2 hi
  | release j b _ hb | sweep _ j b _ hb => exact issued_vacate hb (ha.next hb) hi

/-- Replacing the buffer of one handle leaves the others to their fate. -/
theorem fate_setBuffer {j : BufferId} {c c' : Buffer} (hc : h.buffer? j = some c)
    (hb : h.buffer? id = some b) (hj : id = j → b = c → Fate op id b (some c')) :
    Fate op id b ((h.setBuffer j c').buffer? id) := by
  rw [buffer?_setBuffer hc]
  by_cases he : id = j
  · subst he
    rw [hc] at hb
    simpa using hj rfl (Option.some.inj hb).symm
  · rw [if_neg he, hb]
    exact .same

theorem step_fate (hs : h.Sound) (hb : h.buffer? id = some b) (hstep : op.Step h h') :
    Fate op id b (h'.buffer? id) := by
  cases hstep with
  | intern s =>
    have he : ({ h with symbols := (h.symbols.intern s).2 } : Heap).buffer? id = some b := hb
    rw [he]
    exact .same
  | place c =>
    rw [buffer?_place hs, if_neg, hb]
    · exact .same
    · rintro rfl
      exact not_issued_place hs c (issued_of_buffer? hb)
  | edit j c c' hc he hn =>
    obtain ⟨hr, hf⟩ := writable_eq_ok_iff.1 hc
    obtain ⟨hj, hl⟩ := read_eq_ok_iff.1 hr
    apply fate_setBuffer hj hb
    rintro rfl rfl
    exact .edited c' hl hf he hn
  | manage j c hc =>
    obtain ⟨hj, hl⟩ := read_eq_ok_iff.1 hc
    apply fate_setBuffer hj hb
    rintro rfl rfl
    cases hm : b.managed with
    | true => exact .same
    | false => exact .managed hl hm
  | freeze j c hc =>
    obtain ⟨hj, hl⟩ := read_eq_ok_iff.1 hc
    apply fate_setBuffer hj hb
    rintro rfl rfl
    exact .frozen hl
  | decay j c hop hc =>
    obtain ⟨hj, hl⟩ := read_eq_ok_iff.1 hc
    apply fate_setBuffer hj hb
    rintro rfl rfl
    exact .decayed hl hop
  | release j c hop hj hm =>
    rw [buffer?_vacate hj]
    by_cases he : id = j
    · subst he
      rw [hj] at hb
      cases hb
      simpa using Fate.released hop hm
    · rw [if_neg he, hb]
      exact .same
  | sweep marked j c hop hj hm hu =>
    rw [buffer?_vacate hj]
    by_cases he : id = j
    · subst he
      rw [hj] at hb
      cases hb
      simpa using Fate.swept marked hop hu hm
    · rw [if_neg he, hb]
      exact .same

/-- A buffer present after a step was there before, or has just been placed. -/
theorem step_origin {b' : Buffer} (hs : h.Sound) (hstep : op.Step h h')
    (hb' : h'.buffer? id = some b') :
    (∃ b, h.buffer? id = some b ∧ Fate op id b (some b')) ∨ op.Places b' := by
  cases hb : h.buffer? id with
  | some b =>
    have hf := step_fate hs hb hstep
    rw [hb'] at hf
    exact Or.inl ⟨b, rfl, hf⟩
  | none =>
    have habsent : ∀ {j : BufferId} {c c' : Buffer}, h.buffer? j = some c →
        (h.setBuffer j c').buffer? id ≠ some b' := by
      intro j c c' hc hx
      rcases of_buffer?_setBuffer hc hx with ⟨rfl, _⟩ | hx
      · rw [hb] at hc
        cases hc
      · rw [hb] at hx
        cases hx
    have hvacated : ∀ {j : BufferId} {c : Buffer}, h.buffer? j = some c →
        (h.vacate j).buffer? id ≠ some b' := by
      intro j c hc hx
      rw [of_buffer?_vacate hc hx] at hb
      cases hb
    cases hstep with
    | intern s =>
      have hsame : h.buffer? id = some b' := hb'
      rw [hb] at hsame
      cases hsame
    | place c hc =>
      rcases of_buffer?_place hs hb' with ⟨_, rfl⟩ | hx
      · exact Or.inr hc
      · rw [hb] at hx
        cases hx
    | edit j c c' hw =>
      exact absurd hb' (habsent (buffer?_of_read (writable_eq_ok_iff.1 hw).1))
    | manage j c hr => exact absurd hb' (habsent (buffer?_of_read hr))
    | freeze j c hr => exact absurd hb' (habsent (buffer?_of_read hr))
    | decay j c _ hr => exact absurd hb' (habsent (buffer?_of_read hr))
    | release j c _ hc => exact absurd hb' (hvacated hc)
    | sweep _ j c _ hc => exact absurd hb' (hvacated hc)

/-- An issued handle whose buffer is gone does not name the next tenant of the slot. -/
theorem step_gone (hs : h.Sound) (hi : h.Issued id) (hb : h.buffer? id = none)
    (hstep : op.Step h h') : h'.buffer? id = none := by
  have hne : ∀ {j : BufferId} {c : Buffer}, h.buffer? j = some c → id ≠ j := by
    rintro j c hc rfl
    rw [hb] at hc
    cases hc
  cases hstep with
  | intern s => exact hb
  | place c =>
    rw [buffer?_place hs, if_neg, hb]
    rintro rfl
    exact not_issued_place hs c hi
  | edit j c c' hc =>
    have hj := buffer?_of_read (writable_eq_ok_iff.1 hc).1
    rw [buffer?_setBuffer hj, if_neg (hne hj), hb]
  | manage j c hc =>
    rw [buffer?_setBuffer (buffer?_of_read hc), if_neg (hne (buffer?_of_read hc)), hb]
  | freeze j c hc =>
    rw [buffer?_setBuffer (buffer?_of_read hc), if_neg (hne (buffer?_of_read hc)), hb]
  | decay j c _ hc =>
    rw [buffer?_setBuffer (buffer?_of_read hc), if_neg (hne (buffer?_of_read hc)), hb]
  | release j c _ hc => rw [buffer?_vacate hc, if_neg (hne hc), hb]
  | sweep _ j c _ hc => rw [buffer?_vacate hc, if_neg (hne hc), hb]

/-- What every small step keeps is kept by a run. -/
theorem run_induction (P : Heap → Prop) (ops : List Operation) (hp : P h)
    (hstep : ∀ op h h', P h → Operation.Step op h h' → P h') : P (h.run ops) := by
  induction ops generalizing h with
  | nil => exact hp
  | cons op ops ih => exact ih (after_induction P op hp (hstep op))

theorem after_sound (op : Operation) (hs : h.Sound) : (op.after h).Sound :=
  after_induction Sound op hs fun _ _ => step_sound

theorem run_sound (ops : List Operation) (hs : h.Sound) : (h.run ops).Sound :=
  run_induction Sound ops hs fun _ _ _ => step_sound

theorem reachable_sound (config : Config) (ops : List Operation) :
    ((Heap.new config).run ops).Sound :=
  run_sound ops (sound_new config)

/-- What every small step that advances keeps is kept by a run that advances. -/
theorem run_induction_of_advances (P : Heap → Prop) (ops : List Operation)
    (ha : h.Throughout Operation.Advances ops) (hp : P h)
    (hstep : ∀ op h h', P h → Operation.Step op h h' → h.Advances h' → P h') : P (h.run ops) := by
  induction ops generalizing h with
  | nil => exact hp
  | cons op ops ih =>
    apply ih ha.2
    apply after_induction_if P True op (fun _ => ha.1) hp
    exact fun g g' hg hs hadvances => hstep op g g' hg hs (hadvances trivial)

theorem run_issued (ops : List Operation) (ha : h.Throughout Operation.Advances ops)
    (hs : h.Sound) (hi : h.Issued id) : (h.run ops).Issued id := by
  have hboth := run_induction_of_advances (fun g => g.Sound ∧ g.Issued id) ops ha ⟨hs, hi⟩
    fun _ _ _ hg hstep hg' => ⟨step_sound hg.1 hstep, step_issued hg.1 hg.2 hstep hg'⟩
  exact hboth.2

theorem after_issued (op : Operation) (ha : op.Advances h) (hs : h.Sound) (hi : h.Issued id) :
    (op.after h).Issued id :=
  run_issued [op] ⟨ha, trivial⟩ hs hi

theorem run_gone (ops : List Operation) (ha : h.Throughout Operation.Advances ops) (hs : h.Sound)
    (hi : h.Issued id) (hb : h.buffer? id = none) : (h.run ops).buffer? id = none := by
  have hall := run_induction_of_advances
    (fun g => g.Sound ∧ g.Issued id ∧ g.buffer? id = none) ops ha ⟨hs, hi, hb⟩ (by
      rintro op g g' ⟨hgs, hgi, hgb⟩ hstep hg'
      exact ⟨step_sound hgs hstep, step_issued hgs hgi hstep hg', step_gone hgs hgi hgb hstep⟩)
  exact hall.2.2

theorem isReadable_iff_liveness : h.isReadable id = true ↔
    ∃ b, h.buffer? id = some b ∧ b.liveness ≠ .decayed := by
  simp only [isReadable_iff, read_eq_ok_iff]

structure Lost (h : Heap) (id : BufferId) : Prop where
  sound : h.Sound
  issued : h.Issued id
  unreadable : ¬ h.isReadable id = true

theorem step_lost (hl : h.Lost id) (hstep : op.Step h h') (ha : h.Advances h') : h'.Lost id := by
  have hs := step_sound hl.sound hstep
  have hi := step_issued hl.sound hl.issued hstep ha
  cases hb : h.buffer? id with
  | none =>
    have hg := step_gone hl.sound hl.issued hb hstep
    exact ⟨hs, hi, by simp [isReadable_iff_liveness, hg]⟩
  | some b =>
    have hd : b.liveness = .decayed := by
      by_contra hd
      exact hl.unreadable (isReadable_iff_liveness.2 ⟨b, hb, hd⟩)
    have hf := step_fate hl.sound hb hstep
    constructor
    · exact hs
    · exact hi
    · rw [isReadable_iff_liveness]
      rintro ⟨b', hb', hd'⟩
      rw [hb'] at hf
      cases hf with
      | same => exact hd' hd
      | edited _ hne => exact hne hd
      | managed hne => exact hne hd
      | frozen hne => exact hne hd
      | decayed hne => exact hne hd

theorem run_lost (ops : List Operation) (ha : h.Throughout Operation.Advances ops)
    (hl : h.Lost id) : (h.run ops).Lost id :=
  run_induction_of_advances (Lost · id) ops ha hl fun _ _ _ => step_lost

end Heap

/-- The operation leaves the buffer of a handle in its slot. -/
def Operation.Retains (id : BufferId) (h : Heap) (op : Operation) : Prop :=
  ((op.after h).buffer? id).isSome = true

instance (id : BufferId) (h : Heap) (op : Operation) : Decidable (op.Retains id h) :=
  inferInstanceAs (Decidable (_ = true))

/-- The operation neither drops the contents of a managed buffer nor takes it away. -/
def Operation.Spares (id : BufferId) : Operation → Prop
  | .decay j => j ≠ id
  | .expireFrame c => Context.varlist c ≠ .ok id
  | .sweep marked => marked id = true
  | _ => True

namespace Fate

variable {op : Operation} {id : BufferId} {b b' : Buffer}

theorem not_decays (hs : op.Spares id) : ¬ op.Decays id := by
  rintro (rfl | ⟨c, rfl, hc⟩)
  · exact hs rfl
  · exact hs hc

theorem managed_mono (hf : Fate op id b (some b')) (hm : b.managed = true) :
    b'.managed = true := by
  cases hf with
  | same => exact hm
  | edited _ _ _ he => rw [he.frame]; exact hm
  | managed => rfl
  | frozen => exact hm
  | decayed => exact hm

theorem frozen_mono (hf : Fate op id b (some b')) (hz : b.frozen = true) : b'.frozen = true := by
  cases hf with
  | same => exact hz
  | edited _ _ hnot => rw [hz] at hnot; cases hnot
  | managed => exact hz
  | frozen => rfl
  | decayed => exact hz

/-- Whether a buffer is fixed in size is settled when it is made. -/
theorem fixedSize (hf : Fate op id b (some b')) : b'.fixedSize = b.fixedSize := by
  cases hf with
  | edited _ _ _ he => rw [he.frame]
  | _ => rfl

/-- A buffer that can be read has the keys that it was made with, and so had it before. -/
theorem keylist (hf : Fate op id b (some b')) (hl : b'.liveness ≠ .decayed) :
    b'.keylist = b.keylist ∧ b.liveness ≠ .decayed := by
  cases hf with
  | same => exact ⟨rfl, hl⟩
  | edited _ hb _ he =>
    rw [he.frame]
    exact ⟨rfl, hb⟩
  | managed hb => exact ⟨rfl, hb⟩
  | frozen hb => exact ⟨rfl, hb⟩
  | decayed => exact absurd rfl hl

/-- What an operation that spares it makes of a readable managed buffer: it stays, and if it is
frozen it does not change. -/
theorem spared {o : Option Buffer} (hf : Fate op id b o) (hs : op.Spares id)
    (hl : b.liveness ≠ .decayed) (hm : b.managed = true) :
    ∃ b', o = some b' ∧ b'.liveness ≠ .decayed ∧ b'.managed = true ∧
      (b.frozen = true → b' = b) := by
  cases hf with
  | same => exact ⟨b, rfl, hl, hm, fun _ => rfl⟩
  | edited b' _ hz he =>
    refine ⟨b', rfl, ?_, ?_, fun hf => ?_⟩
    · rw [he.frame]; exact hl
    · rw [he.frame]; exact hm
    · rw [hz] at hf; cases hf
  | managed _ hnot => rw [hm] at hnot; cases hnot
  | frozen =>
    refine ⟨_, rfl, hl, hm, fun hz => ?_⟩
    cases b
    cases hz
    rfl
  | decayed _ hop => exact absurd hop (not_decays hs)
  | released _ hnot => rw [hm] at hnot; cases hnot
  | swept marked hop hu => subst hop; exact absurd hs (by simp [Operation.Spares, hu])

end Fate

namespace Heap

variable {h : Heap} {id : BufferId}

section Tenure

variable {b b' : Buffer} {P : Buffer → Prop}

/-- What no fate takes from a buffer it has after an operation that leaves it in its slot: no
operation both empties a slot and fills one. -/
theorem after_keeps (hmono : ∀ op b b', Fate op id b (some b') → P b → P b') (op : Operation)
    (hs : h.Sound) (hb : h.buffer? id = some b) (hp : P b)
    (hb' : (op.after h).buffer? id = some b') : P b' := by
  cases hop : op.releases with
  | true =>
    cases hb.symm.trans (Operation.buffer?_of_releases hop hb')
    exact hp
  | false =>
    have hall := after_induction (fun g => g.Sound ∧ ∃ c, g.buffer? id = some c ∧ P c) op
      ⟨hs, b, hb, hp⟩ (by
        rintro g g' ⟨hgs, c, hc, hpc⟩ hstep
        refine ⟨step_sound hgs hstep, ?_⟩
        have hf := step_fate hgs hc hstep
        cases hc' : g'.buffer? id with
        | some c' =>
          rw [hc'] at hf
          exact ⟨c', rfl, hmono op c c' hf hpc⟩
        | none =>
          rw [hc'] at hf
          cases hf with
          | released he | swept _ he =>
            subst he
            cases hop)
    obtain ⟨_, c, hc, hpc⟩ := hall
    rw [hb'] at hc
    cases hc
    exact hpc

theorem run_keeps (hmono : ∀ op b b', Fate op id b (some b') → P b → P b')
    (ops : List Operation) (hops : h.Throughout (Operation.Retains id) ops) (hs : h.Sound)
    (hb : h.buffer? id = some b) (hp : P b) (hb' : (h.run ops).buffer? id = some b') : P b' := by
  induction ops generalizing h b with
  | nil =>
    rw [run_nil, hb] at hb'
    cases hb'
    exact hp
  | cons op ops ih =>
    obtain ⟨c, hc⟩ := Option.isSome_iff_exists.1 hops.1
    exact ih hops.2 (after_sound op hs) hc (after_keeps hmono op hs hb hp hc) hb'

/-- A run that advances leaves a buffer in its slot all along, if it is there in the end. -/
theorem retains_of_advances (ops : List Operation) (ha : h.Throughout Operation.Advances ops)
    (hs : h.Sound) (hi : h.Issued id) (hb' : (h.run ops).buffer? id = some b') :
    h.Throughout (Operation.Retains id) ops := by
  induction ops generalizing h with
  | nil => trivial
  | cons op ops ih =>
    have hs' := after_sound op hs
    have hi' := after_issued op ha.1 hs hi
    refine ⟨?_, ih ha.2 hs' hi' hb'⟩
    cases hb : (op.after h).buffer? id with
    | some b => simp [Operation.Retains, hb]
    | none =>
      rw [run_cons, run_gone ops ha.2 hs' hi' hb] at hb'
      cases hb'

theorem run_keeps_of_advances (hmono : ∀ op b b', Fate op id b (some b') → P b → P b')
    (ops : List Operation) (ha : h.Throughout Operation.Advances ops) (hs : h.Sound)
    (hb : h.buffer? id = some b) (hp : P b) (hb' : (h.run ops).buffer? id = some b') : P b' :=
  run_keeps hmono ops (retains_of_advances ops ha hs (issued_of_buffer? hb) hb') hs hb hp hb'

end Tenure

/-- Only a sweep that does not mark it takes a managed buffer away. -/
theorem after_removed (op : Operation) (hs : h.Sound) (hm : h.isManaged id = true)
    (hg : (op.after h).buffer? id = none) :
    ∃ marked, op = .sweep marked ∧ marked id = false := by
  have hp := after_induction (fun g => g.Sound ∧ (g.isManaged id = true ∨
      ∃ marked, op = .sweep marked ∧ marked id = false)) op ⟨hs, Or.inl hm⟩ (by
    rintro g g' ⟨hgs, hgm | hgone⟩ hstep
    · obtain ⟨b, hb, hbm⟩ := isManaged_iff.1 hgm
      have hf := step_fate hgs hb hstep
      refine ⟨step_sound hgs hstep, ?_⟩
      cases hb' : g'.buffer? id with
      | some b' =>
        rw [hb'] at hf
        exact Or.inl (isManaged_iff.2 ⟨b', hb', hf.managed_mono hbm⟩)
      | none =>
        rw [hb'] at hf
        cases hf with
        | released _ hnot => rw [hbm] at hnot; cases hnot
        | swept marked hop hu => exact Or.inr ⟨marked, hop, hu⟩
    · exact ⟨step_sound hgs hstep, Or.inr hgone⟩)
  rcases hp.2 with hstill | hgone
  · obtain ⟨b, hb, _⟩ := isManaged_iff.1 hstill
    rw [hg] at hb
    cases hb
  · exact hgone

theorem run_removed (ops : List Operation) (hs : h.Sound) (hm : h.isManaged id = true)
    (hg : (h.run ops).buffer? id = none) :
    ∃ before marked rest, ops = before ++ .sweep marked :: rest ∧ marked id = false ∧
      (h.run before).isManaged id = true := by
  induction ops generalizing h with
  | nil =>
    obtain ⟨b, hb, _⟩ := isManaged_iff.1 hm
    rw [run_nil, hb] at hg
    cases hg
  | cons op ops ih =>
    by_cases hstill : (op.after h).isManaged id = true
    · obtain ⟨before, marked, rest, rfl, hu, hb⟩ := ih (after_sound op hs) hstill hg
      exact ⟨op :: before, marked, rest, rfl, hu, hb⟩
    · have hnone : (op.after h).buffer? id = none := by
        cases hb : (op.after h).buffer? id with
        | none => rfl
        | some b =>
          obtain ⟨c, hc, hcm⟩ := isManaged_iff.1 hm
          have hbm := after_keeps (fun _ _ _ => Fate.managed_mono) op hs hc hcm hb
          exact absurd (isManaged_iff.2 ⟨b, hb, hbm⟩) hstill
      obtain ⟨marked, rfl, hu⟩ := after_removed op hs hm hnone
      exact ⟨[], marked, ops, rfl, hu, hm⟩

structure Live (h : Heap) (id : BufferId) : Prop where
  sound : h.Sound
  managed : h.isManaged id = true
  readable : h.isReadable id = true

theorem step_live {op : Operation} {h' : Heap} (hop : op.Spares id) (hl : h.Live id)
    (hstep : op.Step h h') : h'.Live id := by
  obtain ⟨b, hb, hd⟩ := isReadable_iff_liveness.1 hl.readable
  have hm : b.managed = true := by simpa [isManaged, hb] using hl.managed
  obtain ⟨b', hb', hd', hm', _⟩ := (step_fate hl.sound hb hstep).spared hop hd hm
  constructor
  · exact step_sound hl.sound hstep
  · exact isManaged_iff.2 ⟨b', hb', hm'⟩
  · exact isReadable_iff_liveness.2 ⟨b', hb', hd'⟩

/-- A frozen buffer that is never dropped reads the same after every run. -/
theorem run_read {b : Buffer} (ops : List Operation) (hs : h.Sound) (hr : h.read id = .ok b)
    (hz : b.frozen = true) (hm : b.managed = true) (hops : ∀ op ∈ ops, op.Spares id) :
    (h.run ops).read id = .ok b := by
  induction ops generalizing h with
  | nil => exact hr
  | cons op ops ih =>
    have hp := after_induction (fun g => g.Sound ∧ g.read id = .ok b) op ⟨hs, hr⟩ (by
      rintro g g' ⟨hgs, hgr⟩ hstep
      obtain ⟨hb, hl⟩ := read_eq_ok_iff.1 hgr
      obtain ⟨b', hb', hl', _, he⟩ :=
        (step_fate hgs hb hstep).spared (hops op (by simp)) hl hm
      have hbb := he hz
      subst hbb
      exact ⟨step_sound hgs hstep, read_eq_ok_iff.2 ⟨hb', hl'⟩⟩)
    exact ih hp.1 hp.2 fun o ho => hops o (by simp [ho])

end Heap

end CellHeap
