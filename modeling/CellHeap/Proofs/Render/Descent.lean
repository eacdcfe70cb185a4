import CellHeap.Proofs.Render.Depth
import CellHeap.Proofs.Session.Nesting
import Mathlib.Order.WellFounded

/-!
# Rendering is a well-founded recursion

Lists, contexts and maps are entered under a guard, sequences and pairs are not;
there the rank of the cell falls instead, in every forward session. So the calls
that rendering makes form a well-founded relation, the equation of `level` has one
solution, and `mold` gives its values: the depth that `mold` is given never shows.
Where a slot has come round, a sequence can contain itself and no depth suffices.
-/

set_option autoImplicit false

namespace CellHeap

theorem Heap.Graded.rank_lt {h : Heap} {c d : Cell} (hg : h.Graded c) (hc : c.isCompound = true)
    (hw : h.Within c d) : d.kind.rank < c.kind.rank := by
  apply hw.rank_lt (hg.rank hc)
  intro id hid b hr
  exact (hg.inner id b (Cell.inner?_eq_some hc hid) (buffer?_of_read hr)).2

namespace Render

open Rendering

section Descent

variable {h : Heap} {stack stack' : List BufferId} {c d : Cell}

/-- A call enters one more buffer, or the rank falls. -/
theorem Enters.load_lt (hg : h.Graded c) (he : Enters h stack c stack' d) :
    load h stack' d < load h stack c := by
  have hw := he.within
  cases he with
  | item hp hid hr =>
    obtain ⟨⟨b, j⟩, hc, _⟩ := bind_eq_ok_iff.1 hr
    obtain ⟨id', hp', hb, _⟩ := Series.checked_eq_ok hc
    rw [hp] at hp'
    cases hp'
    exact load_entered hb hid c d
  | element hd =>
    obtain ⟨s, hs, _⟩ := bind_eq_ok_iff.1 hd
    have hcomp : c.isCompound = true := by simp only [Cell.isCompound, Sequence.storage_eq_ok hs]
    exact load_of_rank (hg.rank_lt hcomp hw)
  | part hp =>
    obtain ⟨id, b, hpay, _⟩ := Pair.parts_eq_ok hp
    have hcomp : c.isCompound = true := by simp only [Cell.isCompound, hpay]
    exact load_of_rank (hg.rank_lt hcomp hw)
  | slot hp hv hd =>
    obtain ⟨_, hs, _⟩ := bind_eq_ok_iff.1 hd
    obtain ⟨v', hc, hs⟩ := bind_eq_ok_iff.1 hs
    obtain ⟨_, _, hs⟩ := bind_eq_ok_iff.1 hs
    obtain ⟨b, hb, _⟩ := bind_eq_ok_iff.1 hs
    simp only [Context.varlist, hp] at hc
    cases hc
    exact load_entered hb hv c d
  | entry hp hid hps =>
    obtain ⟨id', hc, hps⟩ := bind_eq_ok_iff.1 hps
    obtain ⟨b, hb, _⟩ := bind_eq_ok_iff.1 hps
    simp only [Map.pairlist, hp] at hc
    cases hc
    exact load_entered hb hid c d

theorem Enters.graded (hst : h.Stores Heap.Graded) (he : Enters h stack c stack' d) :
    h.Graded d :=
  Heap.graded_of_within hst he.within

theorem acc_enters (hst : h.Stores Heap.Graded) (stack : List BufferId) (c : Cell)
    (hg : h.Graded c) :
    Acc (fun p q : List BufferId × Cell => Enters h q.1 q.2 p.1 p.2) (stack, c) := by
  induction hn : load h stack c using Nat.strong_induction_on generalizing stack c with
  | _ n ih =>
    constructor
    rintro ⟨stack', d⟩ he
    exact ih _ (hn ▸ he.load_lt hg) stack' d (he.graded hst) rfl

/-- A cell from elsewhere need not be graded, but what it leads to is. -/
theorem enters_wellFounded (hst : h.Stores Heap.Graded) :
    WellFounded fun p q : List BufferId × Cell => Enters h q.1 q.2 p.1 p.2 := by
  constructor
  rintro ⟨stack, c⟩
  constructor
  rintro ⟨stack', d⟩ he
  exact acc_enters hst stack' d (he.graded hst)

def Settled (r r' : Rendering) : Prop := r = r' ∧ r.halt ≠ some .tooDeep

theorem respected_settled : Respected Settled where
  write := fun s => ⟨rfl, by simp [write]⟩
  fault := fun e => ⟨rfl, by simp⟩
  andThen := by
    rintro a a' b b' ⟨rfl, ha⟩ ⟨rfl, hb⟩
    refine ⟨rfl, ?_⟩
    cases hh : a.halt with
    | some e =>
      rw [andThen_of_some b hh]
      exact ha
    | none =>
      rw [andThen_of_none b hh]
      exact hb

/-- A depth that covers the load is as good as any other. -/
theorem upTo_settled (hst : h.Stores Heap.Graded) (n m : Nat) (stack : List BufferId) (c : Cell)
    (hg : h.Graded c) (hn : load h stack c ≤ n) (hm : load h stack c ≤ m) :
    Settled (upTo h n stack c) (upTo h m stack c) := by
  have hpos : 1 ≤ load h stack c := by
    have hr := c.kind.one_le_rank
    unfold load
    omega
  induction n generalizing m stack c with
  | zero => omega
  | succ n ih =>
    cases m with
    | zero => omega
    | succ m =>
      apply level_related respected_settled
      intro stack' d he
      have hlt := he.load_lt hg
      have hd := d.kind.one_le_rank
      exact ih m stack' d (he.graded hst) (by omega) (by omega) (by unfold load; omega)

def Solves (h : Heap) (F : List BufferId → Cell → Rendering) : Prop :=
  ∀ stack c, F stack c = level h F stack c

theorem solves_upTo (hst : h.Stores Heap.Graded) : Solves h (upTo h (depthBound h + 1)) := by
  intro stack c
  apply level_related respected_eq
  intro stack' d he
  have hload := load_le_depthBound h stack' d
  exact (upTo_settled hst _ _ stack' d (he.graded hst) hload (by omega)).1

theorem Solves.unique (hst : h.Stores Heap.Graded) {F G : List BufferId → Cell → Rendering}
    (hf : Solves h F) (hg : Solves h G) : F = G := by
  funext stack c
  have hall : ∀ p : List BufferId × Cell, F p.1 p.2 = G p.1 p.2 := by
    intro p
    induction p using (enters_wellFounded hst).induction with
    | _ p ih =>
      rw [hf, hg]
      exact level_related respected_eq fun stack' d he => ih (stack', d) he
  exact hall (stack, c)

theorem halt_separated {α : Type} {f : α → Rendering} {a : α} {e : Halt}
    (hf : (f a).halt = some e) (sep : String) (as : List α) :
    (separated sep f (a :: as)).halt = some e := by
  cases as with
  | nil => exact hf
  | cons b as =>
    rw [separated, andThen_of_some _ hf]
    · exact hf
    · simp

/-- A sequence that starts with itself is never rendered to the end. -/
theorem halt_of_self {st : Storage} {k : Nat} (hread : c.isReadable = true)
    (hp : c.payload = .sequence st) (hblank : c.isBlank = false)
    (hl : Sequence.length h c = .ok (k + 1)) (hself : Sequence.elementAt h c 0 = .ok c) (n : Nat) :
    (upTo h n stack c).halt = some .tooDeep := by
  induction n with
  | zero => rfl
  | succ n ih =>
    have hfirst : element h (upTo h n) stack c 0 = upTo h n stack c := by
      simp [element, hself, hblank, ofRead]
    have hbody : (body h (upTo h n) stack c).halt = some .tooDeep := by
      simp only [body, hp, sequence, hl, ofRead, List.range_succ_eq_map]
      exact halt_separated (hfirst ▸ ih) _ _
    rw [upTo, level, if_pos hread, andThen_of_some _ hbody, andThen_of_none _ rfl]
    exact hbody

end Descent

end Render

namespace Session

open Render

/-- As long as no slot has come back to an earlier generation, the calls of a rendering are well
founded in every heap that a session comes to, and they are all that a level looks at. So one
renderer solves the equation of rendering, and `mold` gives its text or the fault that it meets,
for every cell in hand or in a buffer. -/
theorem mold_terminates {config : Config} {h : Heap} {held : List Cell}
    (hs : Session Operation.Advances config h held) :
    (WellFounded fun p q : List BufferId × Cell => Enters h q.1 q.2 p.1 p.2) ∧
    (∀ (F G : List BufferId → Cell → Rendering) (stack : List BufferId) (c : Cell),
      (∀ stack' d, Enters h stack c stack' d → F stack' d = G stack' d) →
      level h F stack c = level h G stack c) ∧
    ∃ F, Solves h F ∧ (∀ G, Solves h G → G = F) ∧
      ∀ c, (c ∈ held ∨ ∃ id b, h.buffer? id = some b ∧ c ∈ b.stored) →
        mold h c = (F [] c).toExcept ∧
        ((∃ text, mold h c = .ok text) ∨ ∃ e, mold h c = .error (.fault e)) := by
  obtain ⟨_, hst, hheld⟩ := hs.keeps (Heap.graded_invariant forward_advances)
  have hsolves := solves_upTo hst
  refine ⟨enters_wellFounded hst, fun F G stack c he => level_related respected_eq he,
    _, hsolves, fun G hg => hg.unique hst hsolves, ?_⟩
  intro c hc
  have hg : h.Graded c := by
    rcases hc with hc | ⟨id, b, hb, hc⟩
    · exact hheld c hc
    · exact hst id b hb c hc
  have hload := load_le_depthBound h [] c
  obtain ⟨heq, hdeep⟩ := upTo_settled hst _ (depthBound h + 1) [] c hg hload (by omega)
  have hmold : mold h c = (upTo h (depthBound h + 1) [] c).toExcept := by
    rw [← heq]
    rfl
  refine ⟨hmold, ?_⟩
  unfold mold render Rendering.toExcept
  cases hh : (upTo h (depthBound h) [] c).halt with
  | none => exact Or.inl ⟨_, rfl⟩
  | some halt =>
    cases halt with
    | fault e => exact Or.inr ⟨e, rfl⟩
    | tooDeep => exact absurd hh hdeep

/-- A list that contains itself twice through a path. -/
theorem mold_terminates_cycle :
    let list := Cell.bare .block (.series ⟨0, 0⟩ 0)
    let path := Cell.bare .path (.sequence (.pair ⟨1, 0⟩))
    let h := Heap.run (.new {})
      [.makeList .block [], .makeSequence .path [list, list] .adaptive, .appendCells list [path]]
    mold h list = .ok "[[...]/[...]]" ∧ ∃ F, Solves h F ∧ (∀ G, Solves h G → G = F) ∧
      mold h list = (F [] list).toExcept := by
  intro list path h
  have hstart : Session Operation.Advances {} (.new {}) [] := .start
  have hlist : Session Operation.Advances {} (Heap.run (.new {}) [.makeList .block []]) [list] :=
    @perform _ _ _ _ (.makeList .block []) hstart (Operation.advances rfl _) (by simp [Operation.cells])
  have hpath : Session Operation.Advances {} (Heap.run (.new {})
      [.makeList .block [], .makeSequence .path [list, list] .adaptive]) [path, list] :=
    @perform _ _ _ _ (.makeSequence .path [list, list] .adaptive) hlist (Operation.advances rfl _)
      (by simp [Operation.cells])
  have hcycle : Session Operation.Advances {} h [path, list] :=
    @perform _ _ _ _ (.appendCells list [path]) hpath (Operation.advances rfl _) (by simp [Operation.cells])
  obtain ⟨_, _, F, hf, hu, hmold⟩ := mold_terminates hcycle
  exact ⟨by decide, F, hf, hu, (hmold list (by simp)).1⟩

/-- A chain is swept, its slot comes round, and a path is made there of the chain. The session
still holds the chain, which now starts with itself: the calls of its rendering have no end, and no
depth suffices. -/
theorem stale_chain_endless :
    let chain := Cell.bare .chain (.sequence (.pair ⟨0, 0⟩))
    let h := (Operation.makeSequence .path [chain, .integer 300] .adaptive).after (.vacant {} 0)
    (∃ held, Session (fun _ _ => True) {} h held ∧ chain ∈ held) ∧
      (∀ n, (upTo h n [] chain).halt = some .tooDeep) ∧
      ¬ WellFounded fun p q : List BufferId × Cell => Enters h q.1 q.2 p.1 p.2 := by
  intro chain h
  have hself : Sequence.elementAt h chain 0 = .ok chain := by decide
  refine ⟨?_, fun n => ?_, fun hw => ?_⟩
  · have hstart : Session (fun _ _ => True) {} (.new {}) [.integer 1, .integer 300] :=
      .primitive (.primitive .start (.integer 300)) (.integer 1)
    have hchain := @perform _ _ _ _
      (.makeSequence .chain [.integer 1, .integer 300] .adaptive) hstart trivial
      (by simp [Operation.cells])
    obtain ⟨held, hs, hkept⟩ := hchain.comes_round rfl (fun _ => trivial) fun _ _ => trivial
    have hmade : (Operation.makeSequence .chain [.integer 1, .integer 300] .adaptive).made
        (.new {}) = [chain] := rfl
    have hpath := @perform _ _ _ _ (.makeSequence .path [chain, .integer 300] .adaptive) hs trivial
      (by simp [Operation.cells, hkept, hmade])
    exact ⟨_, hpath, List.mem_append_right _ (hkept chain (by simp [hmade]))⟩
  · exact halt_of_self (k := 1) rfl rfl rfl (by decide) hself n
  · exact hw.irrefl.irrefl ([], chain) (.element hself)

end Session

end CellHeap
