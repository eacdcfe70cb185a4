import CellHeap.Proofs.Heap.Lifetime
import CellHeap.Proofs.Heap.View
import CellHeap.Proofs.Session

/-!
# What all cells of a session have in common

A property of the cells of a heap holds throughout a session if every way of
making a cell gives it, and if no step of an operation takes it from a cell; in a
forward session only steps that advance have to be looked at. The induction over
sessions is done here once, for the cells in hand together with the cells in all
buffers. What an operation gives back is said once as well.
-/

set_option autoImplicit false

namespace CellHeap

open HeapM

inductive Operation.Makes (h h' : Heap) : Operation → Cell → Prop
  | word (s : String) (sym : Symbol) : Makes h h' (.makeWord s) (.word sym)
  | keyword (s : String) (sym : Symbol) :
      Makes h h' (.makeKeyword s) { Cell.word sym with lift := .anti }
  | rune {s : String} {c : Cell} (hc : Cell.rune? s = some c) : Makes h h' (.makeRune s) c
  | longRune (s : String) (id : BufferId) : Makes h h' (.makeRune s) (.bare .rune (.series id 0))
  | string (k : Kind) (s : String) (id : BufferId) :
      Makes h h' (.makeString k s) (.bare k (.series id 0))
  | blob (bs : List UInt8) (id : BufferId) : Makes h h' (.makeBlob bs) (.bare .blob (.series id 0))
  | list (k : Kind) (cs : List Cell) (id : BufferId) :
      Makes h h' (.makeList k cs) (.bare k (.series id 0))
  | splice (cs : List Cell) (id : BufferId) :
      Makes h h' (.makeSplice cs) { Cell.bare .group (.series id 0) with lift := .anti }
  | sequence {k : Kind} {es : List Cell} {m : Compression} {s : Storage}
      (hv : Sequence.validate h k es = .ok ()) (hs : Sequence.store m es h = .ok s h') :
      Makes h h' (.makeSequence k es m) (.bare k (.sequence s))
  | pair {x y : Cell} {id : BufferId} (hx : Pair.checkNumber x = .ok ())
      (hy : Pair.checkNumber y = .ok ())
      (hp : Heap.allocateFrozen (.pairing x y) h = .ok id h') :
      Makes h h' (.makePair x y) (.bare .pair (.pairing id))
  | context (k : Kind) (vars : List (Symbol × Cell)) (v : BufferId) :
      Makes h h' (.makeContext k vars) (.bare k (.context v))
  | frame (vars : List (Symbol × Cell)) (l : Lens) (v : BufferId) :
      Makes h h' (.makeFrame vars l) (.bare .frame (.frame v l))
  | map (entries : List (Cell × Cell)) (id : BufferId) :
      Makes h h' (.makeMap entries) (.bare .map (.map id))
  | parameter (m : ParamClass) (t : Typeset) (f : ParamFlags) (spec : List Cell) (id : BufferId) :
      Makes h h' (.makeParameter m t f spec) (.bare .parameter (.parameter (some id) m t f))

namespace Operation

variable {op : Operation} {h h' : Heap} {c : Cell}

theorem of_answer {x : HeapM Cell} (hx : (Answer.cell <$> x) h = .ok (.cell c) h') :
    x h = .ok c h' := by
  obtain ⟨d, hd, he⟩ := of_map hx
  cases he
  exact hd

/-- An operation that gives something else than a cell. -/
theorem not_cell_of_map {α : Type} {x : HeapM α} {g : α → Answer} (hg : ∀ a, g a ≠ .cell c) :
    (g <$> x) h ≠ .ok (.cell c) h' := by
  intro hx
  obtain ⟨a, _, he⟩ := of_map hx
  exact hg a he

theorem silent_ne_cell {x : HeapM Unit} : silent x h ≠ .ok (.cell c) h' := by
  intro hx
  obtain ⟨_, _, hd⟩ := of_wrap hx
  cases hd

theorem makes_of_list {k : Kind} {cs : List Cell} (hx : Lists.make k cs h = .ok c h') :
    ∃ id, c = .bare k (.series id 0) := by
  obtain ⟨_, _, hx⟩ := of_checked hx
  obtain ⟨id, _, hc⟩ := of_wrap hx
  exact ⟨id, hc⟩

theorem makes_of_sequence {k : Kind} {es : List Cell} {m : Compression}
    (hx : Sequence.make k es m h = .ok (.ok c) h') : Makes h h' (.makeSequence k es m) c := by
  obtain ⟨g, g', hg, hx⟩ := of_bind hx
  cases hg
  cases hv : Sequence.validate h k es with
  | error why =>
    rw [hv] at hx
    cases hx
  | ok u =>
    rw [hv] at hx
    obtain ⟨s, hs, hc⟩ := of_wrap hx
    cases hc
    exact .sequence hv hs

theorem makes_of_rune {s : String} (hx : Strings.makeRune s h = .ok c h') :
    Makes h h' (.makeRune s) c := by
  unfold Strings.makeRune at hx
  cases hr : Cell.rune? s with
  | some d =>
    rw [hr] at hx
    obtain ⟨rfl, _⟩ := of_pure hx
    exact .rune hr
  | none =>
    rw [hr] at hx
    obtain ⟨id, _, rfl⟩ := of_wrap hx
    exact .longRune s id

theorem makes_of_perform (hx : op.perform h = .ok (.cell c) h') : op.Makes h h' c := by
  cases op with
  | makeWord s =>
    obtain ⟨sym, _, rfl⟩ := of_wrap (of_answer hx)
    exact .word s sym
  | makeKeyword s =>
    obtain ⟨d, hd, rfl⟩ := of_wrap (of_answer hx)
    obtain ⟨sym, _, rfl⟩ := of_wrap hd
    exact .keyword s sym
  | makeString k s =>
    obtain ⟨id, _, rfl⟩ := of_wrap (of_answer hx)
    exact .string k s id
  | makeRune s => exact makes_of_rune (of_answer hx)
  | makeBlob bs =>
    obtain ⟨id, _, rfl⟩ := of_wrap (of_answer hx)
    exact .blob bs id
  | makeList k cs =>
    obtain ⟨id, rfl⟩ := makes_of_list (of_answer hx)
    exact .list k cs id
  | makeSplice cs =>
    obtain ⟨d, g, hd, hx⟩ := of_bind (of_answer hx)
    obtain ⟨hc, rfl⟩ := of_ofRead hx
    obtain ⟨id, rfl⟩ := makes_of_list hd
    cases hc
    exact .splice cs id
  | makeSequence k es m =>
    obtain ⟨r, g, hr, hx⟩ := of_bind hx
    cases r with
    | error why => cases hx
    | ok d =>
      obtain ⟨hd, rfl⟩ := of_pure hx
      cases hd
      exact makes_of_sequence hr
  | makePair x y =>
    obtain ⟨_, hcx, hx⟩ := of_checked (of_answer hx)
    obtain ⟨_, hcy, hx⟩ := of_checked hx
    obtain ⟨id, hid, rfl⟩ := of_wrap hx
    exact .pair hcx hcy hid
  | makeContext k vars =>
    obtain ⟨v, _, rfl⟩ := of_wrap (of_answer hx)
    exact .context k vars v
  | makeFrame vars l =>
    obtain ⟨v, _, rfl⟩ := of_wrap (of_answer hx)
    exact .frame vars l v
  | makeMap entries =>
    obtain ⟨id, g, _, hx⟩ := of_bind (of_answer hx)
    obtain ⟨_, _, rfl⟩ := of_wrap hx
    exact .map entries id
  | makeParameter m t f spec =>
    obtain ⟨_, _, hx⟩ := of_checked (of_answer hx)
    obtain ⟨id, _, rfl⟩ := of_wrap hx
    exact .parameter m t f spec id
  | intern | allocate | allocateWith | sweep | makePhase | removeEntry =>
    exact absurd hx (not_cell_of_map (by simp))
  | _ => exact absurd hx silent_ne_cell

end Operation

def Heap.Stores (P : Heap → Cell → Prop) (h : Heap) : Prop :=
  ∀ id b, h.buffer? id = some b → ∀ c ∈ b.stored, P h c

structure Session.Invariant (admits : Heap → Operation → Prop) (P : Heap → Cell → Prop) :
    Prop where
  step : ∀ {op : Operation} {h h' : Heap} {c : Cell}, h.Sound → op.Step h h' →
    (Forward admits → h.Advances h') → P h c → P h' c
  supplied : ∀ {h : Heap} {given kept : List Cell} {c : Cell}, (∀ d ∈ given, P h d) →
    (∀ d ∈ kept, P h d) → Buffer.Supplied given kept c → P h c
  primitive : ∀ {h : Heap} {c : Cell}, c.Primitive → P h c
  reworked : ∀ {h : Heap} {c d : Cell}, P h c → c.Reworked h d → P h d
  assigned : ∀ {h : Heap} {slot value d : Cell}, P h value →
    Variable.assign slot value = .ok d ∨ Variable.assignMeta slot value = .ok d → P h d
  element : ∀ {h : Heap} {c d : Cell} {i : Nat}, P h c → h.Stores P →
    Sequence.elementAt h c i = .ok d → P h d
  made : ∀ {op : Operation} {h h' : Heap} {c : Cell}, admits h op → h.Sound →
    (∀ d ∈ op.cells, P h d) → op.perform h = .ok (.cell c) h' → op.Makes h h' c → P h' c

namespace Session.Invariant

variable {admits : Heap → Operation → Prop} {P : Heap → Cell → Prop} {op : Operation} {h h' : Heap}

/-- A buffer after a step was there before, or its cells were supplied. -/
theorem step_stores (hp : Invariant admits P) (hs : h.Sound) (hop : ∀ c ∈ op.cells, P h c)
    (hst : h.Stores P) (hstep : op.Step h h') (ha : Forward admits → h.Advances h') :
    h'.Stores P := by
  have hkeep : ∀ c, P h c → P h' c := fun c => hp.step hs hstep ha
  have hold : ∀ id b, h.buffer? id = some b → ∀ c ∈ b.stored, P h' c :=
    fun id b hb c hc => hkeep c (hst id b hb c hc)
  intro id x hx c hc
  cases hstep with
  | intern s => exact hold id x hx c hc
  | place b hb =>
    rcases Heap.of_buffer?_place hs hx with ⟨_, rfl⟩ | hx
    · exact hkeep c (hp.supplied hop (by simp) (hb.supplied c hc))
    · exact hold id x hx c hc
  | edit j b b' hw he =>
    have hb := Heap.buffer?_of_read (Heap.writable_eq_ok_iff.1 hw).1
    rcases Heap.of_buffer?_setBuffer hb hx with ⟨_, rfl⟩ | hx
    · exact hkeep c (hp.supplied hop (hst j b hb) (he.stored c hc))
    · exact hold id x hx c hc
  | manage j b hr =>
    have hb := Heap.buffer?_of_read hr
    rcases Heap.of_buffer?_setBuffer hb hx with ⟨_, rfl⟩ | hx
    · have hsame : (if b.managed then b else b.toManaged).stored = b.stored := by
        by_cases hm : b.managed = true <;> simp [hm, Buffer.toManaged, Buffer.stored]
      rw [hsame] at hc
      exact hold j b hb c hc
    · exact hold id x hx c hc
  | freeze j b hr =>
    have hb := Heap.buffer?_of_read hr
    rcases Heap.of_buffer?_setBuffer hb hx with ⟨_, rfl⟩ | hx
    · exact hold j b hb c hc
    · exact hold id x hx c hc
  | decay j b _ hr =>
    have hb := Heap.buffer?_of_read hr
    rcases Heap.of_buffer?_setBuffer hb hx with ⟨_, rfl⟩ | hx
    · rw [Contents.blank_of_mem_empty hc]
      exact hp.primitive .blank
    · exact hold id x hx c hc
  | release j b _ hb => exact hold id x (Heap.of_buffer?_vacate hb hx) c hc
  | sweep _ j b _ hb => exact hold id x (Heap.of_buffer?_vacate hb hx) c hc

theorem after_keeps (hp : Invariant admits P) {held : List Cell} (hs : h.Sound)
    (hst : h.Stores P) (hheld : ∀ c ∈ held, P h c) (hop : admits h op)
    (hc : ∀ c ∈ op.cells, c ∈ held) :
    (op.after h).Sound ∧ (op.after h).Stores P ∧ ∀ c ∈ held, P (op.after h) c := by
  apply after_induction_if (fun g => g.Sound ∧ g.Stores P ∧ ∀ c ∈ held, P g c) (Forward admits) op
    (fun hf => hf h op hop) ⟨hs, hst, hheld⟩
  rintro g g' ⟨hgs, hgst, hgheld⟩ hstep ha
  refine ⟨Heap.step_sound hgs hstep, ?_, ?_⟩
  · exact hp.step_stores hgs (fun c h => hgheld c (hc c h)) hgst hstep ha
  · exact fun c h => hp.step hgs hstep ha (hgheld c h)

end Session.Invariant

namespace Session

variable {admits : Heap → Operation → Prop} {P : Heap → Cell → Prop} {h : Heap} {c d : Cell}

/-- What a reader gives is stored in some buffer, up to its header, or needs no heap. -/
theorem of_within (hre : ∀ {h : Heap} {c d : Cell}, P h c → c.Rehead d → P h d)
    (hprim : ∀ {h : Heap} {c : Cell}, c.Primitive → P h c) (hst : h.Stores P)
    (hw : h.Within c d) : P h d := by
  cases hw with
  | stored _ hb he => exact hre (hst _ _ (Heap.buffer?_of_read hb) _ he) ⟨rfl, rfl⟩
  | integer i => exact hprim (.integer i)
  | blank => exact hprim .blank
  | word s => exact hre (hprim (.word s)) ⟨rfl, rfl⟩

/-- A property that does not look at headers, positions and lenses needs to be shown only of the
cells that operations make. -/
theorem invariant_of_rehead
    (hstep : ∀ {op : Operation} {h h' : Heap} {c : Cell}, h.Sound → op.Step h h' →
      (Forward admits → h.Advances h') → P h c → P h' c)
    (hre : ∀ {h : Heap} {c d : Cell}, P h c → c.Rehead d → P h d)
    (hprim : ∀ {h : Heap} {c : Cell}, c.Primitive → P h c)
    (hseries : ∀ {h : Heap} {c : Cell} (id : BufferId) (i j : Nat), P h c →
      c.payload = .series id i → P h { c with payload := .series id j })
    (hframe : ∀ {h : Heap} {c : Cell} (v : BufferId) (l l' : Lens), P h c →
      c.payload = .frame v l → P h { c with payload := .frame v l' })
    (hmade : ∀ {op : Operation} {h h' : Heap} {c : Cell}, admits h op → h.Sound →
      (∀ d ∈ op.cells, P h d) → op.perform h = .ok (.cell c) h' → op.Makes h h' c → P h' c) :
    Invariant admits P where
  step := hstep
  primitive := hprim
  made := hmade
  supplied := by
    intro h given kept c hg hk hc
    cases hc with
    | kept hc => exact hk c hc
    | locked hc => exact hre (hk _ hc) ⟨rfl, rfl⟩
    | given hc => exact hg c hc
    | copied hc slot => exact hre (hg _ hc) (Cell.copyInto_rehead _ slot)
    | lifted hc hd slot =>
      exact hre (hre (hg _ hc) (Cell.toMeta_rehead hd)) (Cell.copyInto_rehead _ slot)
    | key s => exact hprim (.word s)
    | blank => exact hprim .blank
  reworked := by
    intro h c d hc hd
    apply hd.elim
    · exact fun e he => hre hc he
    · exact fun id i j => hseries id i j hc
    · exact fun v l l' => hframe v l l' hc
  assigned := by
    intro h slot value d hv hd
    rcases hd with hd | hd
    · exact hre hv (Cell.assign_rehead hd)
    · exact hre hv (Cell.assignMeta_rehead hd)
  element := fun _ hst hd => of_within hre hprim hst (Sequence.within_of_elementAt hd)

end Session

theorem Session.keeps {admits : Heap → Operation → Prop} {P : Heap → Cell → Prop} {config : Config}
    {h : Heap} {held : List Cell} (hs : Session admits config h held)
    (hp : Invariant admits P) : h.Sound ∧ h.Stores P ∧ ∀ c ∈ held, P h c := by
  induction hs with
  | start =>
    refine ⟨Heap.sound_new config, ?_, by simp⟩
    intro id b hb
    cases hb
  | primitive _ hc ih =>
    exact ⟨ih.1, ih.2.1, List.forall_mem_cons.2 ⟨hp.primitive hc, ih.2.2⟩⟩
  | rework _ hc hd ih =>
    exact ⟨ih.1, ih.2.1, List.forall_mem_cons.2 ⟨hp.reworked (ih.2.2 _ hc) hd, ih.2.2⟩⟩
  | assign _ _ hv hd ih =>
    exact ⟨ih.1, ih.2.1, List.forall_mem_cons.2 ⟨hp.assigned (ih.2.2 _ hv) hd, ih.2.2⟩⟩
  | copy _ hb hc ih =>
    have hstored := ih.2.1 _ _ (Heap.buffer?_of_read hb) _ hc
    exact ⟨ih.1, ih.2.1, List.forall_mem_cons.2 ⟨hstored, ih.2.2⟩⟩
  | element _ hc hd ih =>
    have helement := hp.element (ih.2.2 _ hc) ih.2.1 hd
    exact ⟨ih.1, ih.2.1, List.forall_mem_cons.2 ⟨helement, ih.2.2⟩⟩
  | @perform h held op _ hop hc ih =>
    obtain ⟨hsound, hst, hheld⟩ := hp.after_keeps ih.1 ih.2.1 ih.2.2 hop hc
    refine ⟨hsound, hst, List.forall_mem_append.2 ⟨?_, hheld⟩⟩
    apply Operation.made_of_perform
    rintro a h' hx c rfl
    rw [← after_perform, HeapM.after_of_ok hx]
    exact hp.made hop ih.1 (fun d hd => ih.2.2 d (hc d hd)) hx (Operation.makes_of_perform hx)

theorem Session.sound {admits : Heap → Operation → Prop} {config : Config} {h : Heap}
    {held : List Cell} (hs : Session admits config h held) : h.Sound := by
  induction hs with
  | start => exact Heap.sound_new config
  | perform _ _ _ ih => exact Heap.after_sound _ ih
  | _ => assumption

end CellHeap
