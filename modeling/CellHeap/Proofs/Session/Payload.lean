import CellHeap.Proofs.Session.Invariant

/-!
# Integers and words in sessions

A constructor takes the kind of a series, list or context on trust, but nobody can
make an integer or a word of another kind: such payloads come with their kind and
keep it wherever they are copied. This holds in every session, whatever its
operations are.
-/

set_option autoImplicit false

namespace CellHeap

structure Cell.Faithful (c : Cell) : Prop where
  integer : ∀ i, c.payload = .integer i → c.kind = .integer
  word : ∀ s, c.payload = .word s → c.kind = .word

def Cell.Buildable (c : Cell) : Prop :=
  ∃ config h held, Session (fun _ _ => True) config h held ∧ c ∈ held

namespace Cell

variable {c d : Cell}

theorem Faithful.rehead (hf : c.Faithful) (hr : c.Rehead d) : d.Faithful := by
  constructor
  · intro i hi
    rw [hr.payload] at hi
    rw [hr.kind]
    exact hf.integer i hi
  · intro s hs
    rw [hr.payload] at hs
    rw [hr.kind]
    exact hf.word s hs

/-- Payloads of other forms stand in cells of any kind. -/
theorem faithful_of_other (hi : ∀ i, c.payload ≠ .integer i) (hw : ∀ s, c.payload ≠ .word s) :
    c.Faithful :=
  ⟨fun i he => absurd he (hi i), fun s he => absurd he (hw s)⟩

theorem faithful_word (s : Symbol) : (Cell.word s).Faithful := by
  constructor
  · intro i hi
    cases hi
  · intro _ _
    rfl

theorem faithful_of_rune? {s : String} (hc : rune? s = some c) : c.Faithful := by
  obtain ⟨b, _, hcb⟩ := Option.map_eq_some_iff.1 hc
  subst hcb
  exact faithful_of_other (by simp [bare]) (by simp [bare])

theorem Primitive.faithful (hc : c.Primitive) : c.Faithful := by
  cases hc with
  | integer i =>
    constructor
    · intro _ _
      rfl
    · intro s hs
      cases hs
  | word s => exact faithful_word s
  | rune hc => exact faithful_of_rune? hc
  | runeChar ch =>
    unfold Cell.runeChar
    cases hr : rune? (String.singleton ch) with
    | some d => exact faithful_of_rune? hr
    | none => exact faithful_of_other (by simp [bare]) (by simp [bare])
  | erased | blank | trash | comma | decimal | percent | handle | parameter =>
    exact faithful_of_other (fun _ h => by cases h) (fun _ h => by cases h)

theorem faithful_of_made {op : Operation} {h h' : Heap} (hc : op.Makes h h' c) : c.Faithful := by
  cases hc with
  | word s sym => exact faithful_word sym
  | keyword s sym => exact (faithful_word sym).rehead ⟨rfl, rfl⟩
  | rune hc => exact faithful_of_rune? hc
  | _ => exact faithful_of_other (fun _ h => by cases h) (fun _ h => by cases h)

theorem faithful_invariant (admits : Heap → Operation → Prop) :
    Session.Invariant admits fun _ c => c.Faithful := by
  apply Session.invariant_of_rehead (fun _ _ _ hc => hc) Faithful.rehead Primitive.faithful
  · exact fun id i j _ _ => faithful_of_other (by simp) (by simp)
  · exact fun v l l' _ _ => faithful_of_other (by simp) (by simp)
  · exact fun _ _ _ _ hc => faithful_of_made hc

theorem Buildable.faithful (hc : c.Buildable) : c.Faithful := by
  obtain ⟨config, h, held, hs, hmem⟩ := hc
  exact (hs.keeps (faithful_invariant _)).2.2 c hmem

end Cell

end CellHeap
