import CellHeap.Proofs.Render.Descent

/-!
# The guard against recursion is precise

`plain` renders by plain recursion, with no memory of the cells around. `cutting`
remembers the cells around and writes a cell short just if one of them is a list,
context or map over the same buffer. Rendering with the stack is `cutting` on every
heap. Where no buffer is drawn inside itself no cell is ever cut, so both are `plain`,
however often a buffer is drawn side by side.
-/

set_option autoImplicit false

namespace CellHeap

def Cell.drawn? (c : Cell) : Option BufferId :=
  if c.isReadable then c.guarded?.or c.inner? else none

theorem Cell.drawn?_of_guarded {c : Cell} {id : BufferId} (hc : c.isReadable = true)
    (hid : c.guarded? = some id) : c.drawn? = some id := by
  simp [drawn?, hc, hid]

namespace Render

open Rendering Relation

def whole (h : Heap) (f : Cell → Rendering) (c : Cell) : Rendering := level h (fun _ => f) [] c

def abridged (h : Heap) (c : Cell) : Rendering :=
  level h (fun _ _ => write "") c.guarded?.toList c

def plain (h : Heap) : Nat → Cell → Rendering
  | 0, _ => ⟨"", some .tooDeep⟩
  | n + 1, c => whole h (plain h n) c

def Recurs (around : List Cell) (c : Cell) : Prop :=
  c.guarded?.isSome = true ∧ ∃ e ∈ around, e.guarded? = c.guarded?

instance (around : List Cell) (c : Cell) : Decidable (Recurs around c) :=
  inferInstanceAs (Decidable (_ ∧ _))

def cutting (h : Heap) : Nat → List Cell → Cell → Rendering
  | 0, _, _ => ⟨"", some .tooDeep⟩
  | n + 1, around, c =>
    if Recurs around c then abridged h c else whole h (cutting h n (c :: around)) c

def Acyclic (h : Heap) (c : Cell) : Prop :=
  ∀ d e id, ReflTransGen (Draws h) c d → TransGen (Draws h) d e → d.drawn? = some id →
    e.drawn? ≠ some id

section Guard

variable {h : Heap} {c d : Cell} {around : List Cell}

theorem recurs_iff : Recurs around c ↔
    ∃ id, c.guarded? = some id ∧ id ∈ around.filterMap Cell.guarded? := by
  simp only [Recurs, Option.isSome_iff_exists, List.mem_filterMap]
  constructor
  · rintro ⟨⟨id, hid⟩, e, he, heq⟩
    exact ⟨id, hid, e, he, heq.trans hid⟩
  · rintro ⟨id, hid, e, he, heq⟩
    exact ⟨⟨id, hid⟩, e, he, heq.trans hid.symm⟩

/-- The stack holds the guarded buffers of the cells around, so the guard closes just where a
cell recurs. -/
theorem upTo_eq_cutting (n : Nat) (around : List Cell) (c : Cell) :
    upTo h n (around.filterMap Cell.guarded?) c = cutting h n around c := by
  induction n generalizing around c with
  | zero => rfl
  | succ n ih =>
    unfold cutting
    by_cases hr : Recurs around c
    · obtain ⟨id, hid, hmem⟩ := recurs_iff.1 hr
      rw [if_pos hr]
      apply level_alike respected_eq
      intro _
      constructor
      · exact h.sameView_refl c
      · exact fun _ _ => rfl
      · intro j hj
        rw [hid] at hj
        cases hj
        simp [hid, hmem]
      · intro d _ hfree
        exact absurd hmem (hfree id hid)
    · rw [if_neg hr]
      apply level_alike respected_eq
      intro _
      constructor
      · exact h.sameView_refl c
      · exact fun _ _ => rfl
      · intro j hj
        have hout : j ∉ around.filterMap Cell.guarded? := fun hmem => hr (recurs_iff.2 ⟨j, hj, hmem⟩)
        simp [hout]
      · intro d _ _
        have hstack : c.guarded?.toList ++ around.filterMap Cell.guarded? =
            (c :: around).filterMap Cell.guarded? := by
          cases hg : c.guarded? <;> simp [hg]
        rw [hstack]
        exact ih (c :: around) d

/-- A level in which nothing is cut looks at the cells inside only as it draws them. -/
theorem whole_related {Q : Rendering → Rendering → Prop} (hq : Respected Q)
    {f g : Cell → Rendering} (hfg : ∀ d, Draws h c d → Q (f d) (g d)) :
    Q (whole h f c) (whole h g c) := by
  apply level_alike hq
  intro _
  constructor
  · exact h.sameView_refl c
  · exact fun _ _ => rfl
  · exact fun _ _ => Iff.rfl
  · exact fun d hd _ => hfg d hd

theorem Draws.isReadable (hd : Draws h c d) : c.isReadable = true := by
  cases hd <;> assumption

theorem Draws.references (hd : Draws h c d) : c.references = c.drawn?.toList := by
  unfold Cell.drawn? Cell.guarded? Cell.inner? Cell.references
  cases hd with
  | item hc hp hk => simp [hc, hp, hk]
  | @element st _ _ hc hp => cases st <;> simp [hc, hp]
  | part hc hp | slot hc hp | entry hc hp => simp [hc, hp]

/-- A cell that is drawn stands in the buffer that is drawn, or is a number or a word that a
sequence holds without a buffer. -/
theorem Draws.source (hd : Draws h c d) :
    (∃ id b e, c.drawn? = some id ∧ h.read id = .ok b ∧ e ∈ b.stored ∧ d.drawn? = e.drawn?) ∨
      d.drawn? = none ∧ ∀ e, ¬ Draws h d e := by
  have henters : Enters h [] c (c.guarded?.toList ++ []) d := hd.enters (by simp)
  cases henters.within with
  | stored hid hb hmem binding =>
    rw [hd.references, Option.mem_toList] at hid
    exact Or.inl ⟨_, _, _, hid, hb, hmem, rfl⟩
  | integer | blank | word =>
    refine Or.inr ⟨rfl, fun e he => ?_⟩
    cases he <;> contradiction

theorem Acyclic.draws (hc : Acyclic h c) (hd : Draws h c d) : Acyclic h d :=
  fun e e' id he he' => hc e e' id (.head hd he) he'

/-- Below a cell that is drawn, the buffer of the cell around it is not drawn. -/
theorem Acyclic.drawn? {e : Cell} {id : BufferId} (hc : Acyclic h c) (hd : Draws h c d)
    (he : ReflTransGen (Draws h) d e) (hid : c.drawn? = some id) : e.drawn? ≠ some id :=
  hc c e id .refl (TransGen.head' hd he) hid

/-- Nothing is cut if no cell below draws a buffer of the cells around. -/
theorem cutting_eq_plain (hc : Acyclic h c) (n : Nat)
    (haround : ∀ e ∈ around, ∀ id, e.guarded? = some id → ∀ d, ReflTransGen (Draws h) c d →
      d.drawn? ≠ some id) : cutting h n around c = plain h n c := by
  induction n generalizing around c with
  | zero => rfl
  | succ n ih =>
    by_cases hr : Recurs around c
    · -- only a cell that holds no value can stand here, and it is written without a look inside
      obtain ⟨id, hid, hmem⟩ := recurs_iff.1 hr
      obtain ⟨e, he, heid⟩ := List.mem_filterMap.1 hmem
      have herased : ¬ c.isReadable = true := by
        intro hread
        exact haround e he id heid c .refl (Cell.drawn?_of_guarded hread hid)
      simp only [cutting, if_pos hr, abridged, plain, whole, level, if_neg herased]
    · rw [cutting, if_neg hr, plain]
      apply whole_related respected_eq
      intro d hd
      apply ih (hc.draws hd)
      intro e he id hid e' he'
      rcases List.mem_cons.1 he with rfl | he
      · exact hc.drawn? hd he' (Cell.drawn?_of_guarded hd.isReadable hid)
      · exact haround e he id hid e' (.head hd he')

theorem plain_settled_of_leaf (hc : ∀ d, ¬ Draws h c d) (n m : Nat) :
    Settled (plain h (n + 1) c) (plain h (m + 1) c) :=
  whole_related respected_settled fun d hd => absurd hd (hc d)

/-- Without a cycle every path enters new buffers, so a depth that covers the buffers not yet
entered is as good as any other. -/
theorem plain_settled (hc : Acyclic h c) (seen : List BufferId)
    (hseen : ∀ id ∈ seen, ∀ d, ReflTransGen (Draws h) c d → d.drawn? ≠ some id) (n m : Nat)
    (hn : (h.unseen seen).length + 2 ≤ n) (hm : (h.unseen seen).length + 2 ≤ m) :
    Settled (plain h n c) (plain h m c) := by
  induction n generalizing m seen c with
  | zero => omega
  | succ n ih =>
    obtain ⟨m, rfl⟩ : ∃ k, m = k + 1 := ⟨m - 1, by omega⟩
    apply whole_related respected_settled
    intro d hd
    rcases hd.source with ⟨id, b, e, hid, hb, _⟩ | ⟨_, hleaf⟩
    · have hnew : id ∉ seen := fun hmem => hseen id hmem c .refl hid
      have hlt := Heap.unseen_cons_lt (Heap.mem_ids (Heap.buffer?_of_read hb)) hnew
      apply ih (hc.draws hd) (id :: seen) _ m (by omega) (by omega)
      intro j hj e' he'
      rcases List.mem_cons.1 hj with rfl | hj
      · exact hc.drawn? hd he' hid
      · exact hseen j hj e' (.head hd he')
    · obtain ⟨n, rfl⟩ : ∃ k, n = k + 1 := ⟨n - 1, by omega⟩
      obtain ⟨m, rfl⟩ : ∃ k, m = k + 1 := ⟨m - 1, by omega⟩
      exact plain_settled_of_leaf hleaf n m

/-- A heap in which every buffer draws only buffers before it. -/
theorem acyclic_of_descending
    (hdesc : ∀ id b, h.read id = .ok b → ∀ e ∈ b.stored, ∀ j, e.drawn? = some j →
      j.index < id.index) (c : Cell) : Acyclic h c := by
  have hstep : ∀ d e j, Draws h d e → e.drawn? = some j →
      ∃ id, d.drawn? = some id ∧ j.index < id.index := by
    intro d e j hd hj
    rcases hd.source with ⟨id, b, e', hid, hb, hmem, he⟩ | ⟨hnone, _⟩
    · exact ⟨id, hid, hdesc id b hb e' hmem j (he.symm.trans hj)⟩
    · rw [hnone] at hj
      cases hj
  have hrun : ∀ d e, TransGen (Draws h) d e → ∀ j, e.drawn? = some j →
      ∃ id, d.drawn? = some id ∧ j.index < id.index := by
    intro d e hde
    induction hde with
    | single hd => exact fun j => hstep _ _ j hd
    | tail _ hlast ih =>
      intro j hj
      obtain ⟨k, hk, hjk⟩ := hstep _ _ j hlast hj
      obtain ⟨id, hid, hkid⟩ := ih k hk
      exact ⟨id, hid, Nat.lt_trans hjk hkid⟩
  intro d e id _ hde hid hj
  obtain ⟨id', hid', hlt⟩ := hrun d e hde id hj
  rw [hid] at hid'
  cases hid'
  exact Nat.lt_irrefl _ hlt

end Guard

/-- The guard is precise. If no buffer is drawn inside itself, `mold` gives the text or the fault
of plain recursion, at every depth from that of `mold` on, and the depth never shows; so what is
shared is written in full each time. On every heap the guard cuts just the lists, contexts and
maps over the buffer of a cell around them. -/
theorem guard_precise (h : Heap) (c : Cell) :
    (Acyclic h c → ∀ n, depthBound h ≤ n →
      mold h c = (plain h n c).toExcept ∧ (plain h n c).halt ≠ some .tooDeep) ∧
    mold h c = (cutting h (depthBound h) [] c).toExcept ∧
    ∀ n, upTo h n [] c = cutting h n [] c := by
  have hcut : ∀ n, upTo h n [] c = cutting h n [] c := fun n => upTo_eq_cutting n [] c
  refine ⟨?_, congrArg toExcept (hcut _), hcut⟩
  intro hc n hn
  have hroom : (h.unseen []).length + 2 ≤ depthBound h := by
    have hids := h.length_ids_le
    have hfilter : (h.unseen []).length ≤ h.ids.length := List.length_filter_le _ _
    have hsquare := Nat.le_mul_self (h.slots.size + 2)
    unfold depthBound
    omega
  obtain ⟨heq, hdeep⟩ := plain_settled hc [] (by simp) n (depthBound h) (by omega) hroom
  have hplain : cutting h (depthBound h) [] c = plain h (depthBound h) c :=
    cutting_eq_plain hc _ (by simp)
  refine ⟨?_, hdeep⟩
  rw [heq, ← hplain, ← hcut]
  rfl

/-- A list that stands three times in a list, in a path and beside it. -/
theorem guard_precise_shared :
    let inner := Cell.bare .block (.series ⟨0, 0⟩ 0)
    let path := Cell.bare .path (.sequence (.pair ⟨1, 0⟩))
    let outer := Cell.bare .group (.series ⟨2, 0⟩ 0)
    let h := Heap.run (.new {})
      [.makeList .block [.integer 7], .makeSequence .path [inner, inner] .adaptive,
        .makeList .group [inner, path]]
    Acyclic h outer ∧ mold h outer = .ok "([7] [7]/[7])" ∧
      mold h outer = (plain h (depthBound h) outer).toExcept := by
  intro inner path outer h
  have hdesc : ∀ id ∈ h.ids, ∀ b ∈ h.buffer? id, ∀ e ∈ b.stored, ∀ j ∈ e.drawn?,
      j.index < id.index := by
    decide +kernel
  have hc : Acyclic h outer := by
    apply acyclic_of_descending
    intro id b hb e he j hj
    have hb' := Heap.buffer?_of_read hb
    exact hdesc id (Heap.mem_ids hb') b hb' e he j hj
  exact ⟨hc, by decide +kernel, ((guard_precise h outer).1 hc _ (Nat.le_refl _)).1⟩

end Render

end CellHeap
