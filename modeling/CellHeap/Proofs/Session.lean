import CellHeap.Proofs.Cell.Header
import CellHeap.Proofs.Heap.Generation

/-!
# Sessions

A session is a run from a new heap together with the cells that its caller holds.
The caller makes cells that need no heap, reworks cells it holds, copies cells out
of buffers that can be read and performs operations on cells it holds; handles of
buffers are free. Every reader of lists, contexts, maps, pairs and parameters
gives copies of cells stored in a readable buffer, so one rule covers them all.
Which operations are performed, and in which heaps, is up to the class of the
session; in a forward one no slot comes back to an earlier generation.
-/

set_option autoImplicit false

namespace CellHeap

inductive Cell.Primitive : Cell → Prop
  | erased : Primitive .erased
  | blank : Primitive .blank
  | trash : Primitive .trash
  | comma : Primitive .comma
  | integer (i : Int64) : Primitive (.integer i)
  | decimal (d : Binary64) : Primitive (.decimal d)
  | percent (d : Binary64) : Primitive (.percent d)
  | word (s : Symbol) : Primitive (.word s)
  | rune {s : String} {c : Cell} (hc : Cell.rune? s = some c) : Primitive c
  | runeChar (c : Char) : Primitive (.runeChar c)
  | handle (address length : UInt64) : Primitive (.handle address length)
  | parameter (mode : ParamClass) (types : Typeset) (flags : ParamFlags) :
      Primitive (.parameter mode types flags)

inductive Cell.Reworked (h : Heap) (c : Cell) : Cell → Prop
  | quotify {n : Nat} {d : Cell} (hd : c.quotify n = .ok d) : Reworked h c d
  | unquotify {n : Nat} {d : Cell} (hd : c.unquotify n = .ok d) : Reworked h c d
  | toAntiform {accept : Accept} {d : Cell} (hd : c.toAntiform accept = .ok d) : Reworked h c d
  | toQuasiform {d : Cell} (hd : c.toQuasiform = .ok d) : Reworked h c d
  | toMeta {d : Cell} (hd : c.toMeta = .ok d) : Reworked h c d
  | ofMeta {d : Cell} (hd : c.ofMeta = .ok d) : Reworked h c d
  | setSigil {s : Option Sigil} {d : Cell} (hd : c.setSigil s = .ok d) : Reworked h c d
  | setConst (on : Bool) : Reworked h c (c.setConst on)
  | setNewline (on : Bool) : Reworked h c (c.setNewline on)
  | setLocked (on : Bool) : Reworked h c (c.setLocked on)
  | setBinding {b : Option Binding} {d : Cell} (hd : c.setBinding b = .ok d) : Reworked h c d
  | skip {n : Int} {d : Cell} (hd : Series.skip h c n = .ok d) : Reworked h c d
  | head {d : Cell} (hd : Series.head c = .ok d) : Reworked h c d
  | tail {d : Cell} (hd : Series.tail h c = .ok d) : Reworked h c d
  | setLens {l : Lens} {d : Cell} (hd : Frame.setLens c l = .ok d) : Reworked h c d
  | cacheLabel {d : Cell} (hd : Frame.cacheLabel h c = .ok d) : Reworked h c d

namespace Cell

variable {c d : Cell}

theorem withIndex_eq_ok {i : Nat} (hd : Series.withIndex c i = .ok d) :
    ∃ id j, c.payload = .series id j ∧ d = { c with payload := .series id i } := by
  obtain ⟨⟨id, j⟩, hp, hd⟩ := bind_eq_ok_iff.1 hd
  cases hd
  unfold Series.parts at hp
  split at hp <;> cases hp
  exact ⟨id, j, by assumption, rfl⟩

theorem setLens_eq_ok {l : Lens} (hd : Frame.setLens c l = .ok d) :
    ∃ v l', c.payload = .frame v l' ∧ d = { c with payload := .frame v l } := by
  unfold Frame.setLens at hd
  split at hd <;> cases hd
  rename_i v l' hp
  exact ⟨v, l', hp, rfl⟩

/-- The kind stays, and so does the payload up to a position or a lens. -/
theorem Reworked.elim {h : Heap} {P : Cell → Prop} (hd : c.Reworked h d)
    (hhead : ∀ d, c.Rehead d → P d)
    (hseries : ∀ id i j, c.payload = .series id i → P { c with payload := .series id j })
    (hframe : ∀ v l l', c.payload = .frame v l → P { c with payload := .frame v l' }) : P d := by
  have hindex : ∀ {i e}, Series.withIndex c i = .ok e → P e := by
    intro i e he
    obtain ⟨id, j, hp, he⟩ := withIndex_eq_ok he
    rw [he]
    exact hseries id j i hp
  have hlens : ∀ {l e}, Frame.setLens c l = .ok e → P e := by
    intro l e he
    obtain ⟨v, l', hp, he⟩ := setLens_eq_ok he
    rw [he]
    exact hframe v l' l hp
  cases hd with
  | quotify hd => exact hhead d (quotify_rehead hd)
  | unquotify hd => exact hhead d (unquotify_rehead hd)
  | toAntiform hd => exact hhead d (toAntiform_rehead hd)
  | toQuasiform hd => exact hhead d (toQuasiform_rehead hd)
  | toMeta hd => exact hhead d (toMeta_rehead hd)
  | ofMeta hd => exact hhead d (ofMeta_rehead hd)
  | setSigil hd => exact hhead d (setSigil_rehead hd)
  | setConst | setNewline | setLocked => exact hhead _ ⟨rfl, rfl⟩
  | setBinding hd =>
    rw [setBinding_eq_ok hd]
    exact hhead _ ⟨rfl, rfl⟩
  | skip hd | tail hd =>
    obtain ⟨_, _, hd⟩ := bind_eq_ok_iff.1 hd
    exact hindex hd
  | head hd => exact hindex hd
  | setLens hd => exact hlens hd
  | cacheLabel hd =>
    obtain ⟨_, _, hd⟩ := bind_eq_ok_iff.1 hd
    exact hlens hd

end Cell

namespace Operation

/-- Constructors that take a kind are given one that they are meant for. -/
def Admitted : Operation → Prop
  | makeString k _ => k.isString = true
  | makeList k _ => k.isList = true
  | makeContext k _ => k = .object ∨ k = .module ∨ k = .error
  | _ => True

def made (op : Operation) (h : Heap) : List Cell :=
  match op.perform h with
  | .ok (.cell c) _ => [c]
  | _ => []

theorem made_of_perform {op : Operation} {h : Heap} {P : Cell → Prop}
    (hp : ∀ a h', op.perform h = .ok a h' → ∀ c, a = .cell c → P c) : ∀ c ∈ op.made h, P c := by
  intro c hc
  unfold made at hc
  split at hc
  · rename_i d h' hd
    rw [List.mem_singleton] at hc
    rw [hc]
    exact hp _ _ hd d rfl
  · cases hc

end Operation

/-- The heaps and the cells in hand that a caller can come to, with operations of a given class. -/
inductive Session (admits : Heap → Operation → Prop) (config : Config) : Heap → List Cell → Prop
  | start : Session admits config (.new config) []
  | primitive {h : Heap} {held : List Cell} {c : Cell} (hs : Session admits config h held)
      (hc : c.Primitive) : Session admits config h (c :: held)
  | rework {h : Heap} {held : List Cell} {c d : Cell} (hs : Session admits config h held)
      (hc : c ∈ held) (hd : c.Reworked h d) : Session admits config h (d :: held)
  | assign {h : Heap} {held : List Cell} {slot value d : Cell} (hs : Session admits config h held)
      (hslot : slot ∈ held) (hvalue : value ∈ held)
      (hd : Variable.assign slot value = .ok d ∨ Variable.assignMeta slot value = .ok d) :
      Session admits config h (d :: held)
  | copy {h : Heap} {held : List Cell} {id : BufferId} {b : Buffer} {c : Cell}
      (hs : Session admits config h held) (hb : h.read id = .ok b) (hc : c ∈ b.stored) :
      Session admits config h (c :: held)
  | element {h : Heap} {held : List Cell} {c d : Cell} {i : Nat}
      (hs : Session admits config h held) (hc : c ∈ held)
      (hd : Sequence.elementAt h c i = .ok d) : Session admits config h (d :: held)
  | perform {h : Heap} {held : List Cell} {op : Operation} (hs : Session admits config h held)
      (hop : admits h op) (hc : ∀ c ∈ op.cells, c ∈ held) :
      Session admits config (op.after h) (op.made h ++ held)

namespace Session

variable {admits : Heap → Operation → Prop}

def Forward (admits : Heap → Operation → Prop) : Prop := ∀ h op, admits h op → op.Advances h

theorem forward_advances : Forward Operation.Advances := fun _ _ ha => ha

inductive Move (admits : Heap → Operation → Prop) : Heap × List Cell → Heap × List Cell → Prop
  | primitive {h : Heap} {held : List Cell} {c : Cell} (hc : c.Primitive) :
      Move admits (h, held) (h, c :: held)
  | rework {h : Heap} {held : List Cell} {c d : Cell} (hc : c ∈ held) (hd : c.Reworked h d) :
      Move admits (h, held) (h, d :: held)
  | assign {h : Heap} {held : List Cell} {slot value d : Cell} (hslot : slot ∈ held)
      (hvalue : value ∈ held)
      (hd : Variable.assign slot value = .ok d ∨ Variable.assignMeta slot value = .ok d) :
      Move admits (h, held) (h, d :: held)
  | copy {h : Heap} {held : List Cell} {id : BufferId} {b : Buffer} {c : Cell}
      (hb : h.read id = .ok b) (hc : c ∈ b.stored) : Move admits (h, held) (h, c :: held)
  | element {h : Heap} {held : List Cell} {c d : Cell} {i : Nat} (hc : c ∈ held)
      (hd : Sequence.elementAt h c i = .ok d) : Move admits (h, held) (h, d :: held)
  | perform {h : Heap} {held : List Cell} {op : Operation} (hop : admits h op)
      (hc : ∀ c ∈ op.cells, c ∈ held) : Move admits (h, held) (op.after h, op.made h ++ held)

def Later (admits : Heap → Operation → Prop) : Heap × List Cell → Heap × List Cell → Prop :=
  Relation.ReflTransGen (Move admits)

/-- Operations that need no cells can be performed in a row. -/
theorem run {config : Config} {h : Heap} {held : List Cell} (hs : Session admits config h held)
    (ops : List Operation) (hops : ∀ op ∈ ops, op.cells = [] ∧ ∀ g, admits g op) :
    ∃ held', Session admits config (h.run ops) held' ∧ ∀ c ∈ held, c ∈ held' := by
  induction ops generalizing h held with
  | nil => exact ⟨held, hs, fun c hc => hc⟩
  | cons op ops ih =>
    rw [List.forall_mem_cons] at hops
    obtain ⟨⟨hcells, hop⟩, hrest⟩ := hops
    have hnext := hs.perform (hop h) (by simp [hcells])
    obtain ⟨held', hs', hkept⟩ := ih hnext hrest
    exact ⟨held', hs', fun c hc => hkept c (List.mem_append_right _ hc)⟩

/-- Where operations that release are free, the first buffer of a heap can be swept and its slot
brought back to the first generation, while the cells that name it are still in hand. -/
theorem comes_round {config : Config} {h : Heap} {held : List Cell}
    (hs : Session admits config h held)
    (hswept : (Operation.sweep fun _ => false).after h = .vacant config 1)
    (hblob : ∀ g, admits g (.makeBlob [])) (hsweep : ∀ g marked, admits g (.sweep marked)) :
    ∃ held', Session admits config (.vacant config 0) held' ∧ ∀ c ∈ held, c ∈ held' := by
  have hfree : ∀ n, ∀ op ∈ Heap.rounds n, op.cells = [] ∧ ∀ g, admits g op := by
    intro n op hop
    rcases Heap.mem_rounds hop with rfl | ⟨marked, rfl⟩
    · exact ⟨rfl, hblob⟩
    · exact ⟨rfl, fun g => hsweep g marked⟩
  have hempty := @perform _ _ _ _ (.sweep fun _ => false) hs (hsweep _ _) (by simp [Operation.cells])
  rw [hswept] at hempty
  obtain ⟨held', hs', hkept⟩ := hempty.run (Heap.rounds 4294967295) (hfree _)
  rw [Heap.rounds_come_round] at hs'
  exact ⟨held', hs', fun c hc => hkept c (List.mem_append_right _ hc)⟩

end Session

end CellHeap
