import CellHeap.Proofs.Render.Locality
import CellHeap.Proofs.Sequence.Plan
import CellHeap.Proofs.Session.Homes

/-!
# Renderings do not show how sequences are stored

Two builds of one plan share its leaves and nothing else: their lists stand in
buffers of their own, so the stacks that guard against recursion differ. They hold
the same of the old buffers, and no list of a build is on its own stack when it is
entered. So both builds render alike, in whatever forms their sequences are stored,
unless a leaf is so old that it names a buffer of the builds themselves.
-/

set_option autoImplicit false

namespace CellHeap.Render

open Rendering Heap

variable {Old I I₁ I₂ : BufferId → Prop} {h g : Heap} {c c₁ c₂ d : Cell} {cs ds es es' : List Cell}
  {k : Kind} {s s' s₁ s₂ : List BufferId} {nested nested' : List BufferId → Cell → Rendering}

def Aligned (Old : BufferId → Prop) (s s' : List BufferId) : Prop :=
  ∀ id, Old id → (id ∈ s' ↔ id ∈ s)

theorem Aligned.append (ha : Aligned Old s s') (entered : List BufferId) :
    Aligned Old (entered ++ s) (entered ++ s') := by
  intro id hid
  rw [List.mem_append, List.mem_append, ha id hid]

/-- What rendering enters stands in the buffer that was placed for the cell. -/
theorem Enters.home? {id : BufferId} (he : Enters g s c s' d) (hid : id ∈ c.references) :
    c.home? = some id := by
  have hone : (∃ j, c.references = [j]) → c.home? = some id := by
    rintro ⟨j, hj⟩
    rw [hj] at hid
    rw [Cell.home?, hj, List.mem_singleton.1 hid]
    rfl
  cases he with
  | item hp | slot hp | entry hp => exact hone ⟨_, by rw [Cell.references, hp]⟩
  | part hp =>
    obtain ⟨j, _, hpay, _⟩ := Pair.parts_eq_ok hp
    exact hone ⟨j, by rw [Cell.references, hpay]⟩
  | element hd =>
    obtain ⟨st, hst, _⟩ := bind_eq_ok_iff.1 hd
    have hp := Sequence.storage_eq_ok hst
    cases st with
    | bytes | word => simp [Cell.references, hp] at hid
    | pair j | array j => exact hone ⟨j, by rw [Cell.references, hp]⟩

theorem homed_of_enters (hst : h.Stores Homed) (he : h.Extends g) (hc : h.Homed c)
    (hd : Enters g s c s' d) : h.Homed d := by
  have hw : h.Within c d := by
    cases hd.within with
    | stored hid hb hmem binding =>
      have hi := hc _ (hd.home? hid)
      exact .stored hid ((he.read hi).symm.trans hb) hmem binding
    | integer i => exact .integer i
    | blank => exact .blank
    | word w b => exact .word w b
  exact Session.of_within Homed.rehead homed_of_primitive hst hw

/-- A cell from before the builds renders alike on both stacks. -/
theorem upTo_aligned (hst : h.Stores Homed) (he : h.Extends g) (hc : h.Homed c)
    (ha : Aligned h.Issued s s') (n : Nat) : upTo g n s c = upTo g n s' c := by
  induction n generalizing s s' c with
  | zero => rfl
  | succ n ih =>
    apply level_alike respected_eq
    intro _
    constructor
    · exact g.sameView_refl c
    · exact fun _ _ => rfl
    · exact fun id hid => ha id (hc id (Cell.home?_of_guarded hid))
    · exact fun d hd hfree =>
        ih (homed_of_enters hst he hc (hd.enters hfree)) (ha.append c.guarded?.toList)

theorem level_bare {p q : Payload}
    (hb : body g nested s (.bare k p) = body g nested' s' (.bare k q)) :
    level g nested s (.bare k p) = level g nested' s' (.bare k q) := by
  have hread : ∀ r, (Cell.bare k r).isReadable = true := fun _ => rfl
  unfold level
  rw [if_pos (hread p), if_pos (hread q), hb]
  rfl

theorem element_of_kept {e : Cell} {i : Nat} (hk : Sequence.kept g c = .ok es)
    (hb : c.binding = none) (hi : es[i]? = some e) :
    element g nested s c i = if e.isBlank then write "" else nested s e := by
  rw [element, Sequence.elementAt_eq hk hi, hb, Sequence.inherit_none]
  rfl

/-- Sequences of parts that render alike, blanks being not written. -/
theorem sequence_twin {st st' : Storage} (hes : Sequence.kept g (.bare k (.sequence st)) = .ok es)
    (hes' : Sequence.kept g (.bare k (.sequence st')) = .ok es')
    (hall : List.Forall₂ (fun e e' => e'.isBlank = e.isBlank ∧
      (e.isBlank = false → nested s e = nested' s' e')) es es') :
    sequence g nested s (.bare k (.sequence st)) =
      sequence g nested' s' (.bare k (.sequence st')) := by
  obtain ⟨hlen, hget⟩ := List.forall₂_iff_get.1 hall
  unfold sequence
  rw [Sequence.length_eq hes, Sequence.length_eq hes', ← hlen]
  apply respected_eq.separated
  intro i hi
  have hlt : i < es.length := List.mem_range.1 hi
  have hlt' : i < es'.length := hlen ▸ hlt
  obtain ⟨hblank, hnested⟩ := hget i hlt hlt'
  rw [element_of_kept hes rfl (List.getElem?_eq_getElem hlt),
    element_of_kept hes' rfl (List.getElem?_eq_getElem hlt')]
  simp only [List.get_eq_getElem] at hblank hnested
  rw [hblank]
  by_cases he : es[i].isBlank = true
  · rw [if_pos he, if_pos he]
  · rw [if_neg he, if_neg he]
    exact hnested (by simpa using he)

theorem cells_twin (hall : List.Forall₂ (fun c d => d.flags = c.flags ∧
    nested s c = nested' s' d) cs ds) : cells nested s cs = cells nested' s' ds := by
  have hfrom : ∀ i, each (fun p => write (gap p.2 p.1) >> nested s p.1) (cs.zipIdx i) =
      each (fun p => write (gap p.2 p.1) >> nested' s' p.1) (ds.zipIdx i) := by
    induction hall with
    | nil => exact fun _ => rfl
    | @cons c d cs ds hcd _ ih =>
      intro i
      have hgap : gap i d = gap i c := by simp only [gap, hcd.1]
      simp only [List.zipIdx_cons, each, hgap, hcd.2, ih (i + 1)]
  exact hfrom 0

theorem rest_of_cells {id : BufferId} {b : Buffer} (hr : g.read id = .ok b)
    (hb : b.contents = .cells cs) : Series.rest g (.bare k (.series id 0)) = .ok (.cells cs) := by
  have hc : Series.checked g (.bare k (.series id 0)) = .ok (b, 0) := by
    simp [Series.checked, Series.parts, Cell.bare, hr]
  simp [Series.rest, hc, hb]

/-- A list that is not being rendered yet. -/
theorem body_of_list {id : BufferId} {b : Buffer} (hk : k.isList = true) (hr : g.read id = .ok b)
    (hb : b.contents = .cells cs) (hs : id ∉ s) : body g nested s (.bare k (.series id 0)) =
      (write (opening k) >> cells nested (id :: s) cs >> write (closing k)) := by
  have hrune : (Cell.bare k (.series id 0)).kind ≠ .rune := by
    rintro rfl
    cases hk
  have hbody : body g nested s (.bare k (.series id 0)) =
      series g nested s (.bare k (.series id 0)) id := if_neg hrune
  rw [hbody, series, rest_of_cells hr hb]
  simp only [ofRead, inside, if_neg hs]
  rfl

def Clear (Old I : BufferId → Prop) (s : List BufferId) : Prop := ∀ id ∈ s, I id → Old id

theorem clear_nil : Clear Old I [] := fun _ hid => nomatch hid

section Twins

variable {held : List Cell} {t : Plan held}

theorem flags_of_depicts (hd₁ : Plan.Depicts Old g I₁ t c₁) (hd₂ : Plan.Depicts Old g I₂ t c₂) :
    c₂.flags = c₁.flags := by
  cases hd₁ <;> cases hd₂ <;> rfl

theorem aligned_entered {i j : BufferId} (ha : Aligned Old s s') (hi : ¬ Old i) (hj : ¬ Old j) :
    Aligned Old (i :: s) (j :: s') := by
  intro id hid
  have hni : id ≠ i := fun he => hi (he ▸ hid)
  have hnj : id ≠ j := fun he => hj (he ▸ hid)
  simp only [List.mem_cons, hni, hnj, false_or]
  exact ha id hid

theorem clear_entered {J : BufferId → Prop} {id : BufferId} (hs : Clear Old I s) (hid : ¬ J id)
    (hJ : ∀ j, J j → I j) : Clear Old J (id :: s) := by
  intro j hj hJj
  rcases List.mem_cons.1 hj with rfl | hj
  · exact absurd hJj hid
  · exact hs j hj (hJ j hJj)

/-- Two depictions of one plan render alike. -/
theorem upTo_twin (hleaf : ∀ c ∈ held, ∀ n s s', Aligned Old s s' → upTo g n s c = upTo g n s' c)
    (hd₁ : Plan.Depicts Old g I₁ t c₁) (hd₂ : Plan.Depicts Old g I₂ t c₂)
    (ha : Aligned Old s₁ s₂) (hs₁ : Clear Old I₁ s₁) (hs₂ : Clear Old I₂ s₂) (n : Nat) :
    upTo g n s₁ c₁ = upTo g n s₂ c₂ := by
  induction hd₁ generalizing I₂ c₂ s₁ s₂ n with
  | leaf hc =>
    cases hd₂
    exact hleaf _ hc n s₁ s₂ ha
  | sequence hk hes hlen hblank hin ih =>
    cases hd₂ with
    | sequence _ hes' hlen' hblank' hin' =>
      cases n with
      | zero => rfl
      | succ n =>
        apply level_bare
        apply sequence_twin hes hes'
        apply (forall₂_of_zips hlen hlen').imp
        rintro e e' ⟨t, ht, ht'⟩
        refine ⟨(hblank' t e' ht').trans (hblank t e ht).symm, fun he => ?_⟩
        have hb : t.outline.isBlank = false := (hblank t e ht).symm.trans he
        exact ih t e ht hb (hin' t e' ht' hb) ha hs₁ hs₂ n
  | @list I J k hk parts id b cs hr hb hnew hid hout hJ hlen hin ih =>
    cases hd₂ with
    | list hr' hb' hnew' hid' hout' hJ' hlen' hin' =>
      cases n with
      | zero => rfl
      | succ n =>
        have hfree : id ∉ s₁ := fun hmem => hnew (hs₁ id hmem hid)
        have hfree' := fun hmem => hnew' (hs₂ _ hmem hid')
        have ha' := aligned_entered ha hnew hnew'
        apply level_bare
        rw [body_of_list hk hr hb hfree, body_of_list hk hr' hb' hfree', cells_twin]
        apply (forall₂_of_zips hlen hlen').imp
        rintro c c' ⟨t, ht, ht'⟩
        have hd := hin' t c' ht'
        refine ⟨flags_of_depicts (hin t c ht) hd, ?_⟩
        exact ih t c ht hd ha' (clear_entered hs₁ hout hJ) (clear_entered hs₂ hout' hJ') n

end Twins

end CellHeap.Render

namespace CellHeap.Session

open Render

/-- A plan over the cells of a session can be built just if it is admitted, in whatever forms its
sequences are stored. As long as no slot has come back to an earlier generation, two builds of it,
alone or inside lists, render to the same text or the same fault. -/
theorem mold_recoded {config : Config} {h : Heap} {held : List Cell}
    (hs : Session Operation.Advances config h held) (t : Plan held) (a₁ a₂ : Plan.Encoding) :
    ((∃ c h', t.build a₁ h = .ok (.ok c) h') ↔ t.Admitted h) ∧
    (t.Admitted h → ∃ c₁ h₁ c₂ h₂, t.build a₁ h = .ok (.ok c₁) h₁ ∧
      t.build a₂ h₁ = .ok (.ok c₂) h₂ ∧ mold h₂ c₁ = mold h₂ c₂) := by
  obtain ⟨hsound, hst, hhomed⟩ := hs.keeps (Heap.homed_invariant forward_advances)
  have hf : ∀ c ∈ held, c.Faithful := (hs.keeps (Cell.faithful_invariant _)).2.2
  have hiff := Plan.build_succeeds_iff (a := a₁) hf t hsound rfl
  refine ⟨hiff, fun ht => ?_⟩
  obtain ⟨c₁, h₁, hb₁⟩ := hiff.2 ht
  have hbuilt₁ : Plan.Built h.Issued h h₁ t c₁ :=
    Plan.built_of_build hf t hsound (fun _ hi => hi) hb₁
  obtain ⟨c₂, h₂, hb₂⟩ : ∃ d g, t.build a₂ h₁ = .ok (.ok d) g :=
    (Plan.build_succeeds_iff hf t hbuilt₁.sound hbuilt₁.kept.symbols).2 ht
  have hbuilt₂ : Plan.Built h.Issued h₁ h₂ t c₂ :=
    Plan.built_of_build hf t hbuilt₁.sound hbuilt₁.kept.issued hb₂
  have hkept : h.Extends h₂ := hbuilt₁.kept.trans hbuilt₂.kept
  have hleaf : ∀ c ∈ held, ∀ n s s', Aligned h.Issued s s' → upTo h₂ n s c = upTo h₂ n s' c :=
    fun c hc n s s' ha => upTo_aligned hst hkept (hhomed c hc) ha n
  have hdepicts₁ : Plan.Depicts h.Issued h₂ h₁.Issued t c₁ :=
    hbuilt₁.depicts.mono hbuilt₂.kept fun _ hj => hj
  have hsame : upTo h₂ (depthBound h₂) [] c₁ = upTo h₂ (depthBound h₂) [] c₂ :=
    upTo_twin hleaf hdepicts₁ hbuilt₂.depicts (fun _ _ => Iff.rfl) clear_nil clear_nil _
  refine ⟨c₁, h₁, c₂, h₂, hb₁, hb₂, ?_⟩
  unfold mold render
  rw [hsame]

/-- A path that holds a chain that holds a tuple, beside a list that the chain holds too. -/
theorem mold_recoded_nested :
    let word := Cell.word ⟨0⟩
    let one := Cell.integer 1
    let list := Cell.bare .block (.series ⟨0, 0⟩ 0)
    let h := (Heap.new {}).run [.intern "a", .makeList .block [one]]
    let held := [list, word, one]
    let number : Plan held := .leaf one (by simp [held])
    let block : Plan held := .leaf list (by simp [held])
    let tuple : Plan held := .sequence .tuple [number, number]
    let chain : Plan held := .sequence .chain [tuple, block]
    let path : Plan held := .sequence .path [.leaf word (by simp [held]), chain]
    let t : Plan held := .list .group rfl [path, block]
    Session Operation.Advances {} h held ∧ t.Admitted h ∧
    ∃ h₁ h₂, t.build (fun _ => .adaptive) h = .ok (.ok (.bare .group (.series ⟨3, 0⟩ 0))) h₁ ∧
      t.build (fun _ => .never) h₁ = .ok (.ok (.bare .group (.series ⟨7, 0⟩ 0))) h₂ ∧
      mold h₂ (.bare .group (.series ⟨3, 0⟩ 0)) = .ok "(a/1.1:[1] [1])" ∧
      mold h₂ (.bare .group (.series ⟨3, 0⟩ 0)) = mold h₂ (.bare .group (.series ⟨7, 0⟩ 0)) := by
  intro word one list h held number block tuple chain path t
  have hheld : Session Operation.Advances {} (.new {}) [word, one] :=
    .primitive (.primitive .start (.integer 1)) (.word ⟨0⟩)
  have hintern : Session Operation.Advances {} (Heap.run (.new {}) [.intern "a"]) [word, one] :=
    @perform _ _ _ _ (.intern "a") hheld (Operation.advances rfl _) (by simp [Operation.cells])
  have hs : Session Operation.Advances {} h held :=
    @perform _ _ _ _ (.makeList .block [one]) hintern (Operation.advances rfl _) (by simp [Operation.cells])
  have hb₁ : t.build (fun _ => .adaptive) h = .ok (.ok (.bare .group (.series ⟨3, 0⟩ 0)))
      (HeapM.after (t.build fun _ => .adaptive) h) :=
    HeapM.eq_ok_after (by decide +kernel)
  have hb₂ : t.build (fun _ => .never) (HeapM.after (t.build fun _ => .adaptive) h) =
      .ok (.ok (.bare .group (.series ⟨7, 0⟩ 0)))
        (HeapM.after (t.build fun _ => .never) (HeapM.after (t.build fun _ => .adaptive) h)) :=
    HeapM.eq_ok_after (by decide +kernel)
  obtain ⟨hiff, hrecoded⟩ := mold_recoded hs t (fun _ => .adaptive) fun _ => .never
  have ht : t.Admitted h := hiff.1 ⟨_, _, hb₁⟩
  obtain ⟨c₁, h₁, c₂, h₂, hc₁, hc₂, hmold⟩ := hrecoded ht
  rw [hb₁] at hc₁
  cases hc₁
  rw [hb₂] at hc₂
  cases hc₂
  exact ⟨hs, ht, _, _, hb₁, hb₂, by decide +kernel, hmold⟩

/-- A list is swept and its slot comes round. A plan that has the list as a leaf is then built
twice: the first build takes the slot, so that the leaf names it, and only the first is cut short
there. -/
theorem stale_leaf_recoded : ∃ (held : List Cell) (t : Plan held),
    Session (fun _ _ => True) {} (.vacant {} 0) held ∧ t.Admitted (.vacant {} 0) ∧
    ∃ c₁ h₁ c₂ h₂, t.build (fun _ => .adaptive) (.vacant {} 0) = .ok (.ok c₁) h₁ ∧
      t.build (fun _ => .never) h₁ = .ok (.ok c₂) h₂ ∧
      mold h₂ c₁ = .ok "[[...] 1.2]" ∧ mold h₂ c₂ = .ok "[[[...] 1.2] 1.2]" := by
  let leaf := Cell.bare .block (.series ⟨0, 0⟩ 0)
  let numbers := [Cell.integer 1, .integer 2]
  have hstart : Session (fun _ _ => True) {} (.new {}) numbers :=
    .primitive (.primitive .start (.integer 2)) (.integer 1)
  have hlist : Session (fun _ _ => True) {} _ (leaf :: numbers) :=
    @perform _ _ _ _ (.makeList .block []) hstart trivial (by simp [Operation.cells])
  obtain ⟨held, hs, hkept⟩ := hlist.comes_round rfl (fun _ => trivial) fun _ _ => trivial
  let tuple : Plan held := .sequence .tuple
    [.leaf (.integer 1) (hkept _ (by simp [numbers])),
      .leaf (.integer 2) (hkept _ (by simp [numbers]))]
  let t : Plan held := .list .block rfl [.leaf leaf (hkept _ (by simp)), tuple]
  let h₁ := (Operation.makeList .block
    [leaf, .bare .tuple (.sequence (.bytes ⟨[1, 2], by decide⟩))]).after (.vacant {} 0)
  let h₂ := h₁.run [.makeSequence .tuple numbers .never,
    .makeList .block [leaf, .bare .tuple (.sequence (.array ⟨1, 0⟩))]]
  have hb₁ : t.build (fun _ => .adaptive) (.vacant {} 0) = .ok (.ok leaf) h₁ := rfl
  have hb₂ : t.build (fun _ => .never) h₁ = .ok (.ok (.bare .block (.series ⟨2, 0⟩ 0))) h₂ := rfl
  have hf : ∀ c ∈ held, c.Faithful := (hs.keeps (Cell.faithful_invariant _)).2.2
  have ht := (Plan.build_succeeds_iff hf t hs.sound rfl).1 ⟨_, _, hb₁⟩
  exact ⟨held, t, hs, ht, leaf, h₁, _, h₂, hb₁, hb₂, by decide +kernel, by decide +kernel⟩

end CellHeap.Session
