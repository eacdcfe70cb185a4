import CellHeap.Proofs.Sequence.Transparency

/-!
# Nested sequences in every encoding

A plan is a tree of sequences and lists over cells in hand. It is built from the
leaves up, each sequence in the form that is assigned to its place. It can be built
just if the grammar admits every node, whatever the forms, and what was built
depicts the plan: its sequences keep their parts and its lists hold them, in buffers
that were not there before and that no part of them contains.
-/

set_option autoImplicit false

namespace CellHeap

inductive Plan (held : List Cell) where
  | leaf (cell : Cell) (hc : cell ∈ held)
  | sequence (kind : Kind) (parts : List (Plan held))
  | list (kind : Kind) (hk : kind.isList = true) (parts : List (Plan held))

namespace Plan

variable {held : List Cell}

/-- The form of the sequence at each place, a place being the positions on the way to it. -/
abbrev Encoding := List Nat → Compression

mutual

def build (a : Encoding) : Plan held → ExceptT Rejection HeapM Cell
  | .leaf c _ => return c
  | .sequence k parts => do ExceptT.mk (Sequence.make k (← buildAll a 0 parts) (a []))
  | .list k _ parts => do Lists.make k (← buildAll a 0 parts)

def buildAll (a : Encoding) (i : Nat) : List (Plan held) → ExceptT Rejection HeapM (List Cell)
  | [] => return []
  | t :: ts => do
    let c ← build (fun place => a (i :: place)) t
    return c :: (← buildAll a (i + 1) ts)

end

def outline : Plan held → Cell
  | .leaf c _ => c
  | .sequence k _ => .bare k .empty
  | .list k _ _ => .bare k .empty

inductive Admitted (h : Heap) : Plan held → Prop
  | leaf {c : Cell} (hc : c ∈ held) : Admitted h (.leaf c hc)
  | sequence {k : Kind} {parts : List (Plan held)} (hp : ∀ t ∈ parts, Admitted h t)
      (hv : Sequence.validate h k (parts.map outline) = .ok ()) : Admitted h (.sequence k parts)
  | list {k : Kind} {hk : k.isList = true} {parts : List (Plan held)}
      (hp : ∀ t ∈ parts, Admitted h t) (hv : ∀ t ∈ parts, t.outline.isElement = true) :
      Admitted h (.list k hk parts)

theorem induction {P : Plan held → Prop} (hleaf : ∀ c hc, P (.leaf c hc))
    (hsequence : ∀ k parts, (∀ t ∈ parts, P t) → P (.sequence k parts))
    (hlist : ∀ k hk parts, (∀ t ∈ parts, P t) → P (.list k hk parts)) : ∀ t, P t
  | .leaf c hc => hleaf c hc
  | .sequence k parts => hsequence k parts fun t _ => induction hleaf hsequence hlist t
  | .list k hk parts => hlist k hk parts fun t _ => induction hleaf hsequence hlist t

section Outcome

variable {α β : Type} {h h' g : Heap}

theorem of_bind {x : ExceptT Rejection HeapM α} {f : α → ExceptT Rejection HeapM β} {b : β}
    (hx : (x >>= f) h = .ok (.ok b) h') :
    ∃ a g, x h = .ok (.ok a) g ∧ f a g = .ok (.ok b) h' := by
  obtain ⟨r, g, hr, hx⟩ := HeapM.of_bind hx
  cases r with
  | ok a => exact ⟨a, g, hr, hx⟩
  | error why => cases hx

theorem bind_of_ok {x : ExceptT Rejection HeapM α} {a : α} (hx : x h = .ok (.ok a) g)
    (f : α → ExceptT Rejection HeapM β) : (x >>= f) h = f a g := by
  have hb := HeapM.bind_apply (show HeapM (Except Rejection α) from x) (ExceptT.bindCont f) h
  rw [hx] at hb
  exact hb

end Outcome

end Plan

structure Heap.Extends (h g : Heap) : Prop where
  issued : ∀ id, h.Issued id → g.Issued id
  buffer : ∀ id, h.Issued id → g.buffer? id = h.buffer? id
  symbols : g.symbols = h.symbols

namespace Heap.Extends

variable {h g k : Heap} {id : BufferId} {b : Buffer}

theorem refl (h : Heap) : h.Extends h := ⟨fun _ hi => hi, fun _ _ => rfl, rfl⟩

theorem trans (hg : h.Extends g) (hk : g.Extends k) : h.Extends k :=
  ⟨fun id hi => hk.issued id (hg.issued id hi),
    fun id hi => (hk.buffer id (hg.issued id hi)).trans (hg.buffer id hi),
    hk.symbols.trans hg.symbols⟩

theorem read (hg : h.Extends g) (hi : h.Issued id) : g.read id = h.read id := by
  simp only [Heap.read, hg.buffer id hi]

theorem of_placed (hs : h.Sound) (hx : HeapM.place b h = .ok id g) : h.Extends g := by
  obtain ⟨_, hnew, hb⟩ := Heap.of_placed hs hx
  obtain ⟨rfl, rfl⟩ := HeapM.of_place hx
  refine ⟨fun j hj => (issued_place hs b j).2 (Or.inr hj), fun j hj => ?_, symbols_place h b⟩
  rw [hb j, if_neg]
  rintro rfl
  exact hnew hj

end Heap.Extends

namespace Sequence

variable {h h' : Heap} {es : List Cell} {m : Compression} {s : Storage}

theorem store_extends (hs : h.Sound) (hx : store m es h = .ok s h') : h.Extends h' := by
  rcases store_apply m es h with ⟨s', _, hst⟩ | ⟨a, b, _, hst⟩ | hst
  · rw [hst] at hx
    cases hx
    exact .refl h
  · rw [hst] at hx
    obtain ⟨id, ha, _⟩ := HeapM.of_map hx
    exact .of_placed hs ha
  · rw [hst] at hx
    obtain ⟨id, ha, _⟩ := HeapM.of_map hx
    exact .of_placed hs ha

theorem store_succeeds (m : Compression) (es : List Cell) (h : Heap) :
    ∃ s h', store m es h = .ok s h' := by
  rcases store_apply m es h with ⟨s, _, hst⟩ | ⟨a, b, _, hst⟩ | hst
  · exact ⟨s, h, hst⟩
  · exact ⟨_, _, hst.trans rfl⟩
  · exact ⟨_, _, hst.trans rfl⟩

theorem make_succeeds_iff {k : Kind} :
    (∃ c h', make k es m h = .ok (.ok c) h') ↔ validate h k es = .ok () := by
  constructor
  · rintro ⟨c, h', hx⟩
    cases Operation.makes_of_sequence hx with
    | sequence hv _ => exact hv
  · intro hv
    obtain ⟨s, h', hst⟩ := store_succeeds m es h
    refine ⟨.bare k (.sequence s), h', ?_⟩
    simp only [make, HeapM.bind_apply, HeapM.get_apply, hv, hst]
    rfl

end Sequence

theorem Lists.make_succeeds_iff {h : Heap} {k : Kind} {cs : List Cell} :
    (∃ c h', make k cs h = .ok c h') ↔ ∀ c ∈ cs, c.isElement = true := by
  constructor
  · rintro ⟨c, h', hx⟩
    obtain ⟨_, hcheck, _⟩ := HeapM.of_checked hx
    exact Buffer.checkElements_eq_ok hcheck
  · intro hcs
    have hnone : cs.find? (!·.isElement) = none := by simpa using hcs
    have hcheck : Buffer.checkElements cs = .ok () := by simp [Buffer.checkElements, hnone]
    exact ⟨_, _, HeapM.checked_of_ok hcheck _ h⟩

structure Cell.Akin (c d : Cell) : Prop where
  kind : d.kind = c.kind
  lift : d.lift = c.lift
  sigil : d.sigil = c.sigil
  symbol : d.symbol? = c.symbol?

namespace Cell.Akin

variable {c d : Cell} {cs ds : List Cell}

theorem isBlank (ha : c.Akin d) : d.isBlank = c.isBlank := by
  simp only [Cell.isBlank, ha.kind, ha.lift]

theorem isElement (ha : c.Akin d) : d.isElement = c.isElement := by
  simp only [Cell.isElement, Cell.isAntiform, ha.lift]

theorem map_isBlank (ha : List.Forall₂ Akin cs ds) : ds.map Cell.isBlank = cs.map Cell.isBlank := by
  induction ha with
  | nil => rfl
  | cons ha _ ih => rw [List.map_cons, List.map_cons, ha.isBlank, ih]

theorem firstObjection? (ha : List.Forall₂ Akin cs ds) (h : Heap) (k : Kind) (n i : Nat) :
    Sequence.firstObjection? h k n i ds = Sequence.firstObjection? h k n i cs := by
  induction ha generalizing i with
  | nil => rfl
  | @cons c d cs ds ha _ ih =>
    have ho : Sequence.objection? h k i n d = Sequence.objection? h k i n c := by
      unfold Sequence.objection? Cell.isBare
      rw [ha.kind, ha.lift, ha.sigil, ha.symbol]
    rw [Sequence.firstObjection?, Sequence.firstObjection?, ho, ih]

theorem hasBlankEnds (ha : List.Forall₂ Akin cs ds) :
    Sequence.hasBlankEnds ds = Sequence.hasBlankEnds cs := by
  simp only [Sequence.hasBlankEnds, ← List.head?_map, ← List.getLast?_map, map_isBlank ha]

theorem validate (ha : List.Forall₂ Akin cs ds) (h : Heap) (k : Kind) :
    Sequence.validate h k ds = Sequence.validate h k cs := by
  have hall : ds.all Cell.isBlank = cs.all Cell.isBlank := by
    have hmap := congrArg (List.all · id) (map_isBlank ha)
    simpa [List.all_map] using hmap
  simp only [Sequence.validate, ha.length_eq, firstObjection? ha, hall, hasBlankEnds ha]

end Cell.Akin

theorem forall₂_comp {α β γ : Type} {R : α → β → Prop} {S : β → γ → Prop} {as : List α}
    {bs : List β} {cs : List γ} (hr : List.Forall₂ R as bs) (hs : List.Forall₂ S bs cs) :
    List.Forall₂ (fun a c => ∃ b, R a b ∧ S b c) as cs := by
  induction hr generalizing cs with
  | nil =>
    cases hs
    exact .nil
  | cons hab _ ih =>
    cases hs with
    | cons hbc hs => exact .cons ⟨_, hab, hbc⟩ (ih hs)

/-- Two lists of one length with a third correspond by its members. -/
theorem forall₂_of_zips {α β γ : Type} {ts : List α} {bs : List β} {cs : List γ}
    (hb : ts.length = bs.length) (hc : ts.length = cs.length) :
    List.Forall₂ (fun b c => ∃ t, (t, b) ∈ ts.zip bs ∧ (t, c) ∈ ts.zip cs) bs cs := by
  have hbs : List.Forall₂ (fun t b => (t, b) ∈ ts.zip bs) ts bs :=
    List.forall₂_iff_zip.2 ⟨hb, fun ht => ht⟩
  have hcs : List.Forall₂ (fun t c => (t, c) ∈ ts.zip cs) ts cs :=
    List.forall₂_iff_zip.2 ⟨hc, fun ht => ht⟩
  exact forall₂_comp hbs.flip hcs

theorem forall₂_mem_right {α β : Type} {R : α → β → Prop} {as : List α} {bs : List β}
    (hr : List.Forall₂ R as bs) {b : β} (hb : b ∈ bs) : ∃ a ∈ as, R a b := by
  induction hr with
  | nil => cases hb
  | @cons a b' as bs hab _ ih =>
    rcases List.mem_cons.1 hb with rfl | hb
    · exact ⟨a, by simp, hab⟩
    · obtain ⟨x, hx, hxb⟩ := ih hb
      exact ⟨x, by simp [hx], hxb⟩

namespace Plan

variable {held : List Cell} {Old I I' : BufferId → Prop} {h h' g g' : Heap} {a : Encoding}
  {c : Cell} {cs : List Cell} {k : Kind} {t : Plan held} {parts ts : List (Plan held)} {i : Nat}

theorem of_build_sequence (hb : (Plan.sequence k parts).build a h = .ok (.ok c) h') :
    ∃ cs g, buildAll a 0 parts h = .ok (.ok cs) g ∧
      Sequence.make k cs (a []) g = .ok (.ok c) h' := by
  rw [build] at hb
  exact of_bind hb

theorem build_sequence (hp : buildAll a 0 parts h = .ok (.ok cs) g) :
    (Plan.sequence k parts).build a h = Sequence.make k cs (a []) g := by
  rw [build]
  exact bind_of_ok hp _

theorem of_build_list {hk : k.isList = true}
    (hb : (Plan.list k hk parts).build a h = .ok (.ok c) h') :
    ∃ cs g, buildAll a 0 parts h = .ok (.ok cs) g ∧ Lists.make k cs g = .ok c h' := by
  rw [build] at hb
  obtain ⟨cs, g, hcs, hx⟩ := of_bind hb
  obtain ⟨d, hd, hc⟩ := HeapM.of_map hx
  cases hc
  exact ⟨cs, g, hcs, hd⟩

theorem build_list {hk : k.isList = true} (hp : buildAll a 0 parts h = .ok (.ok cs) g)
    (hx : Lists.make k cs g = .ok c h') :
    (Plan.list k hk parts).build a h = .ok (.ok c) h' := by
  have hlift : ((Except.ok : Cell → Except Rejection Cell) <$> Lists.make k cs) g =
      .ok (.ok c) h' := by
    simp only [Functor.map, EStateM.map, hx]
  rw [build, bind_of_ok hp]
  exact hlift

theorem of_buildAll_cons (hb : buildAll a i (t :: ts) h = .ok (.ok cs) h') :
    ∃ c ds g, t.build (fun place => a (i :: place)) h = .ok (.ok c) g ∧
      buildAll a (i + 1) ts g = .ok (.ok ds) h' ∧ cs = c :: ds := by
  rw [buildAll] at hb
  obtain ⟨c, g, hc, hx⟩ := of_bind hb
  obtain ⟨ds, g', hds, hx⟩ := of_bind hx
  cases hx
  exact ⟨c, ds, g, hc, hds, rfl⟩

theorem buildAll_cons (hc : t.build (fun place => a (i :: place)) h = .ok (.ok c) g)
    (hds : buildAll a (i + 1) ts g = .ok (.ok cs) h') :
    buildAll a i (t :: ts) h = .ok (.ok (c :: cs)) h' := by
  rw [buildAll, bind_of_ok hc, bind_of_ok hds]
  rfl

/-- What a cell looks like that was built by a plan. Buffers of lists are not old ones, lie in the
given set, and the parts of a list lie in a set without its own buffer. -/
inductive Depicts (Old : BufferId → Prop) (g : Heap) :
    (BufferId → Prop) → Plan held → Cell → Prop
  | leaf {I : BufferId → Prop} {c : Cell} (hc : c ∈ held) : Depicts Old g I (.leaf c hc) c
  | sequence {I : BufferId → Prop} {k : Kind} {parts : List (Plan held)} {s : Storage}
      {es : List Cell} (hk : k.isSequence = true)
      (hes : Sequence.kept g (.bare k (.sequence s)) = .ok es) (hlen : parts.length = es.length)
      (hblank : ∀ t e, (t, e) ∈ parts.zip es → e.isBlank = t.outline.isBlank)
      (hin : ∀ t e, (t, e) ∈ parts.zip es → t.outline.isBlank = false → Depicts Old g I t e) :
      Depicts Old g I (.sequence k parts) (.bare k (.sequence s))
  | list {I J : BufferId → Prop} {k : Kind} {hk : k.isList = true} {parts : List (Plan held)}
      {id : BufferId} {b : Buffer} {cs : List Cell} (hr : g.read id = .ok b)
      (hb : b.contents = .cells cs) (hnew : ¬ Old id) (hid : I id) (hout : ¬ J id)
      (hJ : ∀ j, J j → I j) (hlen : parts.length = cs.length)
      (hin : ∀ t c, (t, c) ∈ parts.zip cs → Depicts Old g J t c) :
      Depicts Old g I (.list k hk parts) (.bare k (.series id 0))

theorem kept_of_extends {s : Storage} {es : List Cell} (he : g.Extends g')
    (hes : Sequence.kept g (.bare k (.sequence s)) = .ok es) :
    Sequence.kept g' (.bare k (.sequence s)) = .ok es := by
  cases s with
  | bytes | word => exact hes
  | pair id | array id =>
    have hread : (g.read id >>= Buffer.cells) = .ok es := hes
    obtain ⟨b, hb, hcells⟩ := bind_eq_ok_iff.1 hread
    have hi := Heap.issued_of_buffer? (Heap.buffer?_of_read hb)
    have hread' : (g'.read id >>= Buffer.cells) = .ok es :=
      bind_eq_ok_iff.2 ⟨b, (he.read hi).trans hb, hcells⟩
    exact hread'

/-- A depiction lasts while the heap is only added to. -/
theorem Depicts.mono (hd : Depicts Old g I t c) (he : g.Extends g') (hI : ∀ j, I j → I' j) :
    Depicts Old g' I' t c := by
  induction hd generalizing I' with
  | leaf hc => exact .leaf hc
  | sequence hk hes hlen hblank _ ih =>
    exact .sequence hk (kept_of_extends he hes) hlen hblank fun t e hte hb => ih t e hte hb hI
  | list hr hb hnew hid hout hJ hlen _ ih =>
    have hi := Heap.issued_of_buffer? (Heap.buffer?_of_read hr)
    exact .list ((he.read hi).trans hr) hb hnew (hI _ hid) hout (fun j hj => hI j (hJ j hj)) hlen
      fun t c htc => ih t c htc fun _ hj => hj

theorem akin_node {p q : Payload} (hp : ∀ s, p ≠ .word s) (hq : ∀ s, q ≠ .word s) :
    (Cell.bare k p).Akin (.bare k q) := by
  have hnone : ∀ {r : Payload}, (∀ s, r ≠ .word s) → (Cell.bare k r).symbol? = none := by
    intro r hr
    cases r with
    | word s => exact absurd rfl (hr s)
    | _ => rfl
  exact ⟨rfl, rfl, rfl, (hnone hq).trans (hnone hp).symm⟩

theorem Depicts.akin (hd : Depicts Old g I t c) : t.outline.Akin c := by
  cases hd with
  | leaf => exact ⟨rfl, rfl, rfl, rfl⟩
  | sequence => exact akin_node (by simp) (by simp)
  | list => exact akin_node (by simp) (by simp)

/-- The grammar sees the same parts in the plan and in what was built. -/
theorem validate_outlines (hcs : List.Forall₂ (Depicts Old g I) parts cs)
    (hsym : g.symbols = h.symbols) :
    Sequence.validate g k cs = Sequence.validate h k (parts.map outline) := by
  have hakin : List.Forall₂ Cell.Akin (parts.map outline) cs :=
    List.forall₂_map_left_iff.2 (hcs.imp fun _ _ => Depicts.akin)
  rw [Cell.Akin.validate hakin, Sequence.validate_congr hsym]

theorem elements_outlines (hcs : List.Forall₂ (Depicts Old g I) parts cs) :
    (∀ c ∈ cs, c.isElement = true) ↔ ∀ t ∈ parts, t.outline.isElement = true := by
  constructor
  · intro hall t ht
    obtain ⟨c, hc, hd⟩ := forall₂_mem_right hcs.flip ht
    exact hd.akin.isElement.symm.trans (hall c hc)
  · intro hall c hc
    obtain ⟨t, ht, hd⟩ := forall₂_mem_right hcs hc
    exact hd.akin.isElement.trans (hall t ht)

theorem Depicts.faithful (hf : ∀ c ∈ held, c.Faithful) (hd : Depicts Old g I t c) :
    c.Faithful := by
  cases hd with
  | leaf hc => exact hf c hc
  | sequence => exact Cell.faithful_of_other (fun _ he => by cases he) (fun _ he => by cases he)
  | list => exact Cell.faithful_of_other (fun _ he => by cases he) (fun _ he => by cases he)

structure Built (Old : BufferId → Prop) (g g' : Heap) (t : Plan held) (c : Cell) : Prop where
  sound : g'.Sound
  kept : g.Extends g'
  depicts : Depicts Old g' g'.Issued t c

theorem builtAll (hts : ∀ t ∈ ts, ∀ {a g g' c}, g.Sound → (∀ id, Old id → g.Issued id) →
      t.build a g = .ok (.ok c) g' → Built Old g g' t c)
    (hs : g.Sound) (hold : ∀ id, Old id → g.Issued id)
    (hb : buildAll a i ts g = .ok (.ok cs) g') :
    g'.Sound ∧ g.Extends g' ∧ List.Forall₂ (Depicts Old g' g'.Issued) ts cs := by
  induction ts generalizing i g cs with
  | nil =>
    rw [buildAll] at hb
    cases hb
    exact ⟨hs, .refl _, .nil⟩
  | cons t ts ih =>
    obtain ⟨c, ds, k, hc, hds, rfl⟩ := of_buildAll_cons hb
    have hfirst := hts t (by simp) hs hold hc
    have hissued : ∀ id, Old id → k.Issued id := fun id ho => hfirst.kept.issued id (hold id ho)
    obtain ⟨hs', he, hrest⟩ := ih (fun u hu => hts u (by simp [hu])) hfirst.sound hissued hds
    exact ⟨hs', hfirst.kept.trans he, .cons (hfirst.depicts.mono he he.issued) hrest⟩

theorem depicts_of_store {m : Compression} {s : Storage} (hf : ∀ c ∈ held, c.Faithful)
    (hs : g.Sound) (hcs : List.Forall₂ (Depicts Old g g.Issued) parts cs)
    (hv : Sequence.validate g k cs = .ok ()) (hx : Sequence.store m cs g = .ok s g') :
    Built Old g g' (.sequence k parts) (.bare k (.sequence s)) := by
  obtain ⟨hk, _, _⟩ := Sequence.validate_eq_ok hv
  obtain ⟨hn, hbare⟩ := Sequence.bare_of_validate hv
  have hfaithful : ∀ e ∈ cs, e.Faithful := by
    intro e he
    obtain ⟨t, _, hd⟩ := forall₂_mem_right hcs he
    exact hd.faithful hf
  obtain ⟨s', k', es, hx', hs', _, hkeep, hres⟩ :=
    Sequence.store_restores m hs hk hn hbare hfaithful
  rw [hx] at hx'
  cases hx'
  have he := Sequence.store_extends hs hx
  have hboth := List.forall₂_iff_zip.1 (forall₂_comp hcs hres)
  refine ⟨hs', he, .sequence hk hkeep.kept hboth.1 ?_ ?_⟩
  · intro t e hte
    obtain ⟨d, hd, hr⟩ := hboth.2 hte
    rw [hr.isBlank, hd.akin.isBlank]
  · intro t e hte hb
    obtain ⟨d, hd, hr⟩ := hboth.2 hte
    rcases hr with rfl | ⟨_, hblank, _⟩
    · exact hd.mono he he.issued
    · rw [hd.akin.isBlank, hb] at hblank
      cases hblank

theorem depicts_of_list (hk : k.isList = true) (hold : ∀ id, Old id → g.Issued id) (hs : g.Sound)
    (hcs : List.Forall₂ (Depicts Old g g.Issued) parts cs) (hx : Lists.make k cs g = .ok c g') :
    Built Old g g' (.list k hk parts) c := by
  obtain ⟨_, _, hx⟩ := HeapM.of_checked hx
  obtain ⟨id, ha, rfl⟩ := HeapM.of_wrap hx
  obtain ⟨hs', hnew, _⟩ := Heap.of_placed hs ha
  have hread := Heap.read_of_placed hs ha (by simp [Buffer.toManaged])
  have he := Heap.Extends.of_placed hs ha
  have hall := List.forall₂_iff_zip.1 hcs
  refine ⟨hs', he, .list hread rfl (fun ho => hnew (hold id ho)) ?_ hnew he.issued hall.1 ?_⟩
  · exact Heap.issued_of_buffer? (Heap.buffer?_of_read hread)
  · intro t c htc
    exact (hall.2 htc).mono he fun _ hj => hj

/-- Whatever is built depicts its plan. -/
theorem built_of_build (hf : ∀ c ∈ held, c.Faithful) (t : Plan held) : ∀ {a g g' c}, g.Sound →
    (∀ id, Old id → g.Issued id) → t.build a g = .ok (.ok c) g' → Built Old g g' t c := by
  induction t using Plan.induction with
  | hleaf c hc =>
    intro a g g' d hs _ hb
    rw [build] at hb
    cases hb
    exact ⟨hs, .refl _, .leaf hc⟩
  | hsequence k parts ih =>
    intro a g g' c hs hold hb
    obtain ⟨cs, g₁, hcs, hx⟩ := of_build_sequence hb
    obtain ⟨hs₁, he, hdepict⟩ := builtAll ih hs hold hcs
    cases Operation.makes_of_sequence hx with
    | sequence hv hst =>
      have hnode := depicts_of_store hf hs₁ hdepict hv hst
      exact ⟨hnode.sound, he.trans hnode.kept, hnode.depicts⟩
  | hlist k hk parts ih =>
    intro a g g' c hs hold hb
    obtain ⟨cs, g₁, hcs, hx⟩ := of_build_list hb
    obtain ⟨hs₁, he, hdepict⟩ := builtAll ih hs hold hcs
    have hnode := depicts_of_list hk (fun id ho => he.issued id (hold id ho)) hs₁ hdepict hx
    exact ⟨hnode.sound, he.trans hnode.kept, hnode.depicts⟩

/-- The parts are looked at in the heap that they were built in, where the grammar is the same. -/
theorem parts_of_buildAll (hf : ∀ c ∈ held, c.Faithful) (hs : g.Sound)
    (hsym : g.symbols = h.symbols) (hb : buildAll a i parts g = .ok (.ok cs) g') :
    g'.symbols = h.symbols ∧ List.Forall₂ (Depicts (fun _ => False) g' g'.Issued) parts cs := by
  have hnone : ∀ id, (fun _ => False) id → g.Issued id := by simp
  obtain ⟨_, he, hall⟩ := builtAll (fun t _ => built_of_build hf t) hs hnone hb
  exact ⟨he.symbols.trans hsym, hall⟩

theorem buildAll_succeeds_iff (hf : ∀ c ∈ held, c.Faithful)
    (hts : ∀ t ∈ ts, ∀ {a g}, g.Sound → g.symbols = h.symbols →
      ((∃ c g', t.build a g = .ok (.ok c) g') ↔ t.Admitted h))
    (hs : g.Sound) (hsym : g.symbols = h.symbols) :
    (∃ cs g', buildAll a i ts g = .ok (.ok cs) g') ↔ ∀ t ∈ ts, t.Admitted h := by
  induction ts generalizing i g with
  | nil =>
    rw [buildAll]
    exact ⟨fun _ => by simp, fun _ => ⟨[], g, rfl⟩⟩
  | cons t ts ih =>
    have hrest : ∀ {c g₁}, t.build (fun place => a (i :: place)) g = .ok (.ok c) g₁ →
        ((∃ cs g', buildAll a (i + 1) ts g₁ = .ok (.ok cs) g') ↔ ∀ u ∈ ts, u.Admitted h) := by
      intro c g₁ hc
      have hbuilt : Built (fun _ => False) g g₁ t c := built_of_build hf t hs (by simp) hc
      exact ih (fun u hu => hts u (by simp [hu])) hbuilt.sound (hbuilt.kept.symbols.trans hsym)
    rw [List.forall_mem_cons, ← hts t (by simp) hs hsym]
    constructor
    · rintro ⟨cs, g', hb⟩
      obtain ⟨c, ds, g₁, hc, hds, _⟩ := of_buildAll_cons hb
      exact ⟨⟨c, g₁, hc⟩, (hrest hc).1 ⟨ds, g', hds⟩⟩
    · rintro ⟨⟨c, g₁, hc⟩, hall⟩
      obtain ⟨ds, g', hds⟩ := (hrest hc).2 hall
      exact ⟨c :: ds, g', buildAll_cons hc hds⟩

/-- A plan can be built in any encoding just if it is admitted. -/
theorem build_succeeds_iff (hf : ∀ c ∈ held, c.Faithful) (t : Plan held) : ∀ {a g}, g.Sound →
    g.symbols = h.symbols → ((∃ c g', t.build a g = .ok (.ok c) g') ↔ t.Admitted h) := by
  induction t using Plan.induction with
  | hleaf c hc =>
    intro a g _ _
    rw [build]
    exact ⟨fun _ => .leaf hc, fun _ => ⟨c, g, rfl⟩⟩
  | hsequence k parts ih =>
    intro a g hs hsym
    have hall := buildAll_succeeds_iff (a := a) (i := 0) hf ih hs hsym
    constructor
    · rintro ⟨c, g', hb⟩
      obtain ⟨cs, g₁, hcs, hx⟩ := of_build_sequence hb
      obtain ⟨hsym₁, hd⟩ := parts_of_buildAll hf hs hsym hcs
      refine .sequence (hall.1 ⟨cs, g₁, hcs⟩) ?_
      rw [← validate_outlines hd hsym₁]
      exact Sequence.make_succeeds_iff.1 ⟨c, g', hx⟩
    · rintro (_ | ⟨hp, hv⟩)
      obtain ⟨cs, g₁, hcs⟩ := hall.2 hp
      obtain ⟨hsym₁, hd⟩ := parts_of_buildAll hf hs hsym hcs
      rw [build_sequence hcs]
      exact Sequence.make_succeeds_iff.2 ((validate_outlines hd hsym₁).trans hv)
  | hlist k hk parts ih =>
    intro a g hs hsym
    have hall := buildAll_succeeds_iff (a := a) (i := 0) hf ih hs hsym
    constructor
    · rintro ⟨c, g', hb⟩
      obtain ⟨cs, g₁, hcs, hx⟩ := of_build_list hb
      obtain ⟨_, hd⟩ := parts_of_buildAll hf hs hsym hcs
      exact .list (hall.1 ⟨cs, g₁, hcs⟩)
        ((elements_outlines hd).1 (Lists.make_succeeds_iff.1 ⟨c, g', hx⟩))
    · rintro (_ | _ | ⟨hp, hv⟩)
      obtain ⟨cs, g₁, hcs⟩ := hall.2 hp
      obtain ⟨_, hd⟩ := parts_of_buildAll hf hs hsym hcs
      obtain ⟨c, g', hx⟩ := Lists.make_succeeds_iff.2 ((elements_outlines hd).2 hv)
      exact ⟨c, g', build_list hcs hx⟩

end Plan

end CellHeap
