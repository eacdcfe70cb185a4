import CellHeap.Series.Read

/-!
# Equality of cells

Cells are equal if their parts are, except that numbers are compared as numbers:
the two zeros are equal and a NaN equals nothing. So equality is symmetric and
transitive, but a cell equals itself only if it is not a NaN.
-/

set_option autoImplicit false

namespace CellHeap

/-- Two numbers are equal if neither is a NaN and they are the same or both zero. -/
theorem Binary64.equals_iff {x y : Binary64} : x.equals y = true ↔
    x.isNaN = false ∧ y.isNaN = false ∧ (x = y ∨ x.isZero = true ∧ y.isZero = true) := by
  have hbits : x.bits = y.bits ↔ x = y := by
    cases x
    cases y
    simp
  simp [equals, hbits, and_assoc]

theorem Binary64.equals_trans {x y z : Binary64} (hxy : x.equals y = true)
    (hyz : y.equals z = true) : x.equals z = true := by
  obtain ⟨hx, _, hxy⟩ := equals_iff.1 hxy
  obtain ⟨_, hz, hyz⟩ := equals_iff.1 hyz
  refine equals_iff.2 ⟨hx, hz, ?_⟩
  rcases hxy with rfl | ⟨hx0, hy0⟩
  · exact hyz
  · rcases hyz with rfl | ⟨_, hz0⟩
    · exact Or.inr ⟨hx0, hy0⟩
    · exact Or.inr ⟨hx0, hz0⟩

namespace Payload

variable {p q r : Payload}

theorem equals_iff : p.equals q = true ↔
    (∃ x y, p = .decimal x ∧ q = .decimal y ∧ x.equals y = true) ∨
      (p = q ∧ ∀ x, p ≠ .decimal x) := by
  cases p with
  | decimal x => cases q <;> simp [equals]
  | _ => simp [equals]

theorem equals_symm (hpq : p.equals q = true) : q.equals p = true := by
  rcases equals_iff.1 hpq with ⟨x, y, rfl, rfl, hxy⟩ | ⟨rfl, _⟩
  · exact (Binary64.equals_symm y x).trans hxy
  · exact hpq

theorem equals_trans (hpq : p.equals q = true) (hqr : q.equals r = true) : p.equals r = true := by
  rcases equals_iff.1 hpq with ⟨x, y, rfl, rfl, hxy⟩ | ⟨rfl, _⟩
  · rcases equals_iff.1 hqr with ⟨y', z, he, rfl, hyz⟩ | ⟨rfl, hnot⟩
    · cases he
      exact Binary64.equals_trans hxy hyz
    · exact absurd rfl (hnot y)
  · exact hqr

def isNaN : Payload → Bool
  | .decimal d => d.isNaN
  | _ => false

theorem equals_self (hp : p.isNaN = false) : p.equals p = true := by
  cases p with
  | decimal d =>
    show d.equals d = true
    rw [Binary64.equals_self, show d.isNaN = false from hp]
    rfl
  | _ => exact equals_iff.2 (Or.inr ⟨rfl, by simp⟩)

theorem isNaN_of_equals (hpq : p.equals q = true) : p.isNaN = false := by
  rcases equals_iff.1 hpq with ⟨x, y, rfl, _, hxy⟩ | ⟨_, hnot⟩
  · exact (Binary64.equals_iff.1 hxy).1
  · cases p with
    | decimal x => exact absurd rfl (hnot x)
    | _ => rfl

end Payload

namespace Cell

variable {a b c : Cell}

theorem equals_iff : a.equals b = true ↔ a.kind = b.kind ∧ a.lift = b.lift ∧ a.sigil = b.sigil ∧
    a.flags = b.flags ∧ a.payload.equals b.payload = true ∧ a.binding = b.binding := by
  simp [equals, and_assoc]

theorem equals_symm (hab : a.equals b = true) : b.equals a = true := by
  obtain ⟨hk, hl, hs, hf, hp, hb⟩ := equals_iff.1 hab
  exact equals_iff.2 ⟨hk.symm, hl.symm, hs.symm, hf.symm, Payload.equals_symm hp, hb.symm⟩

theorem equals_trans (hab : a.equals b = true) (hbc : b.equals c = true) : a.equals c = true := by
  obtain ⟨hk, hl, hs, hf, hp, hb⟩ := equals_iff.1 hab
  obtain ⟨hk', hl', hs', hf', hp', hb'⟩ := equals_iff.1 hbc
  exact equals_iff.2 ⟨hk.trans hk', hl.trans hl', hs.trans hs', hf.trans hf',
    Payload.equals_trans hp hp', hb.trans hb'⟩

theorem equals_self (hc : c.payload.isNaN = false) : c.equals c = true :=
  equals_iff.2 ⟨rfl, rfl, rfl, rfl, Payload.equals_self hc, rfl⟩

end Cell

theorem cellsEqual_symm {as bs : List Cell} (hab : cellsEqual as bs = true) :
    cellsEqual bs as = true := by
  induction as generalizing bs with
  | nil =>
    cases bs with
    | nil => rfl
    | cons => cases hab
  | cons a as ih =>
    cases bs with
    | nil => cases hab
    | cons b bs =>
      simp only [cellsEqual, Bool.and_eq_true] at hab ⊢
      exact ⟨Cell.equals_symm hab.1, ih hab.2⟩

theorem cellsEqual_trans {as bs cs : List Cell} (hab : cellsEqual as bs = true)
    (hbc : cellsEqual bs cs = true) : cellsEqual as cs = true := by
  induction as generalizing bs cs with
  | nil =>
    cases bs with
    | nil => exact hbc
    | cons => cases hab
  | cons a as ih =>
    cases bs with
    | nil => cases hab
    | cons b bs =>
      cases cs with
      | nil => cases hbc
      | cons c cs =>
        simp only [cellsEqual, Bool.and_eq_true] at hab hbc ⊢
        exact ⟨Cell.equals_trans hab.1 hbc.1, ih hab.2 hbc.2⟩

theorem cellsEqual_self {cs : List Cell} (hc : ∀ c ∈ cs, c.payload.isNaN = false) :
    cellsEqual cs cs = true := by
  induction cs with
  | nil => rfl
  | cons c cs ih =>
    rw [List.forall_mem_cons] at hc
    simp only [cellsEqual, Bool.and_eq_true]
    exact ⟨Cell.equals_self hc.1, ih hc.2⟩

theorem isNaN_of_cellsEqual {as bs : List Cell} (hab : cellsEqual as bs = true) :
    ∀ a ∈ as, a.payload.isNaN = false := by
  induction as generalizing bs with
  | nil => simp
  | cons a as ih =>
    cases bs with
    | nil => cases hab
    | cons b bs =>
      simp only [cellsEqual, Bool.and_eq_true, Cell.equals_iff] at hab
      exact List.forall_mem_cons.2 ⟨Payload.isNaN_of_equals hab.1.2.2.2.2.1, ih hab.2⟩

namespace Slice

variable {a b c : Slice}

theorem equals_symm (hab : a.equals b = true) : b.equals a = true := by
  cases a <;> cases b <;> simp only [equals, beq_iff_eq, Bool.false_eq_true] at hab ⊢
  · exact hab.symm
  · exact hab.symm
  · exact cellsEqual_symm hab

theorem equals_trans (hab : a.equals b = true) (hbc : b.equals c = true) : a.equals c = true := by
  cases a <;> cases b <;> simp only [equals, beq_iff_eq, Bool.false_eq_true] at hab <;>
    cases c <;> simp only [equals, beq_iff_eq, Bool.false_eq_true] at hbc ⊢
  · exact hab.trans hbc
  · exact hab.trans hbc
  · exact cellsEqual_trans hab hbc

end Slice

end CellHeap
