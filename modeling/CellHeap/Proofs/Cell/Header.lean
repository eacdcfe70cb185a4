import CellHeap.Cell.Variable
import CellHeap.Proofs.Outcome

/-!
# What header operations change

Each header operation that succeeds changes one part of the header. None of
them touches the kind or the payload of a cell.
-/

set_option autoImplicit false

namespace CellHeap

theorem Variable.checkStable_eq_ok {value : Cell} {u : Unit}
    (hv : checkStable value = .ok u) : value.isUnstable = false := by
  simpa [checkStable] using hv

namespace Cell

structure Rehead (c d : Cell) : Prop where
  kind : d.kind = c.kind
  payload : d.payload = c.payload

theorem isElement_of_isBare {c : Cell} (hb : c.isBare = true) : c.isElement = true := by
  simp only [isBare, Bool.and_eq_true, beq_iff_eq] at hb
  simp [isElement, isAntiform, hb.1]

/-- What a list may hold, a variable may hold too. -/
theorem isUnstable_of_isElement {c : Cell} (hc : c.isElement = true) : c.isUnstable = false := by
  simp only [isElement, Bool.not_eq_true'] at hc
  simp [isUnstable, hc]

theorem Rehead.references {c d : Cell} (h : Rehead c d) : d.references = c.references := by
  simp only [Cell.references, h.payload]

variable {c d : Cell}

theorem quotify_rehead {n : Nat} (h : c.quotify n = .ok d) : Rehead c d := by
  simp only [quotify, bind_eq_ok_iff] at h
  obtain ⟨l, _, h⟩ := h
  cases h
  exact ⟨rfl, rfl⟩

theorem unquotify_rehead {n : Nat} (h : c.unquotify n = .ok d) : Rehead c d := by
  simp only [unquotify, bind_eq_ok_iff] at h
  obtain ⟨l, _, h⟩ := h
  cases h
  exact ⟨rfl, rfl⟩

theorem toAntiform_eq_ok_iff {accept : Accept} : c.toAntiform accept = .ok d ↔
    c.isQuoted = false ∧ c.kind.antiform?.isSome = true ∧ c.sigil = none ∧
      ¬ (accept = .stable ∧ c.kind.antiform?.any (!·.isStable) = true) ∧
      { c with lift := .anti } = d := by
  simp only [toAntiform, throw_eq_error, error_bind, ite_error_eq_ok_iff]
  cases hk : c.kind.antiform? with
  | none => simp
  | some a =>
    cases accept <;> cases hst : a.isStable <;>
      simp [hst, pure_eq_ok, ite_error_eq_ok_iff]

theorem toQuasiform_eq_ok_iff : c.toQuasiform = .ok d ↔
    c.isQuoted = false ∧ c.kind.antiform?.isSome = true ∧ c.sigil = none ∧
      { c with lift := .quasi } = d := by
  simp only [toQuasiform, throw_eq_error, error_bind, ite_error_eq_ok_iff]
  simp [pure_eq_ok, Option.isSome_iff_ne_none]

theorem setSigil_eq_ok_iff {s : Option Sigil} : c.setSigil s = .ok d ↔
    (s.isSome = true → c.kind.isSigilable = true ∧ c.lift.base = .plain) ∧
      { c with sigil := s } = d := by
  have hbase : (c.lift.base == .anti || c.lift.base == .quasi) = false ↔ c.lift.base = .plain := by
    cases c.lift with
    | quoted n q => cases q <;> simp [Lift.base]
    | _ => simp [Lift.base]
  cases s with
  | none => simp [setSigil, pure_eq_ok]
  | some s =>
    simp only [setSigil, throw_eq_error, error_bind, Option.isSome_some, if_true,
      ite_error_eq_ok_iff, Bool.not_eq_true, hbase]
    simp [pure_eq_ok, and_assoc]

theorem setBinding_eq_ok_iff {b : Option Binding} : c.setBinding b = .ok d ↔
    (b.isSome = true → c.kind.isBindable = true) ∧ { c with binding := b } = d := by
  simp only [setBinding, throw_eq_error, error_bind, ite_error_eq_ok_iff]
  simp [pure_eq_ok]

theorem toAntiform_rehead {accept : Accept} (h : c.toAntiform accept = .ok d) : Rehead c d := by
  obtain ⟨_, _, _, _, rfl⟩ := toAntiform_eq_ok_iff.1 h
  exact ⟨rfl, rfl⟩

theorem toQuasiform_rehead (h : c.toQuasiform = .ok d) : Rehead c d := by
  obtain ⟨_, _, _, rfl⟩ := toQuasiform_eq_ok_iff.1 h
  exact ⟨rfl, rfl⟩

theorem toMeta_rehead (h : c.toMeta = .ok d) : Rehead c d := by
  simp only [toMeta] at h
  split at h
  · cases h
    exact ⟨rfl, rfl⟩
  · exact quotify_rehead h

theorem isAntiform_of_toMeta (hd : c.toMeta = .ok d) : d.isAntiform = false := by
  unfold toMeta at hd
  split at hd
  · cases hd
    rfl
  · rename_i ha
    obtain ⟨l, hl, hd⟩ := bind_eq_ok_iff.1 hd
    cases hd
    unfold isAntiform at ha ⊢
    cases hc : c.lift <;> rw [hc] at hl ha
    case anti => simp at ha
    all_goals
      simp only [Lift.quotify, Nat.one_ne_zero, if_false, Lift.quotedOver] at hl
      split at hl <;> cases hl
      rfl

theorem ofMeta_rehead (h : c.ofMeta = .ok d) : Rehead c d := by
  simp only [ofMeta] at h
  split at h
  · exact toAntiform_rehead h
  · exact unquotify_rehead h

theorem setSigil_rehead {s : Option Sigil} (h : c.setSigil s = .ok d) : Rehead c d := by
  obtain ⟨_, rfl⟩ := setSigil_eq_ok_iff.1 h
  exact ⟨rfl, rfl⟩

theorem setBinding_eq_ok {b : Option Binding} (h : c.setBinding b = .ok d) :
    d = { c with binding := b } :=
  (setBinding_eq_ok_iff.1 h).2.symm

theorem setBinding_of_bindable {b : Option Binding} (hk : c.kind.isBindable = true) :
    c.setBinding b = .ok { c with binding := b } :=
  setBinding_eq_ok_iff.2 ⟨fun _ => hk, rfl⟩

theorem copyInto_rehead (c slot : Cell) : Rehead c (c.copyInto slot) := ⟨rfl, rfl⟩

def unflagged (c : Cell) : Cell :=
  { c with flags := { c.flags with locked := false, erased := false } }

@[simp] theorem unflagged_copyInto (value slot : Cell) :
    (value.copyInto slot).unflagged = value.unflagged := rfl

/-- A copy carries its own flags, and the protection of the slot. -/
theorem copyInto_eq (value slot : Cell) :
    value.copyInto slot = value.unflagged.setLocked slot.isLocked := rfl

theorem assign_eq_ok {slot : Cell} (h : Variable.assign slot c = .ok d) :
    slot.isLocked = false ∧ c.isUnstable = false ∧ d = c.copyInto slot := by
  simp only [Variable.assign, bind_eq_ok_iff] at h
  obtain ⟨_, hw, _, hs, h⟩ := h
  cases h
  exact ⟨by simpa [Variable.checkWritable] using hw, Variable.checkStable_eq_ok hs, rfl⟩

theorem assignMeta_eq_ok {slot : Cell} (h : Variable.assignMeta slot c = .ok d) :
    slot.isLocked = false ∧ ∃ l, c.toMeta = .ok l ∧ d = l.copyInto slot := by
  simp only [Variable.assignMeta, bind_eq_ok_iff] at h
  obtain ⟨_, hw, l, hl, h⟩ := h
  cases h
  exact ⟨by simpa [Variable.checkWritable] using hw, l, hl, rfl⟩

theorem assign_rehead {slot : Cell} (h : Variable.assign slot c = .ok d) : Rehead c d := by
  obtain ⟨_, _, rfl⟩ := assign_eq_ok h
  exact copyInto_rehead c slot

theorem assignMeta_rehead {slot : Cell} (h : Variable.assignMeta slot c = .ok d) :
    Rehead c d := by
  obtain ⟨_, l, hl, rfl⟩ := assignMeta_eq_ok h
  have hr := toMeta_rehead hl
  exact ⟨hr.kind, hr.payload⟩

end Cell

end CellHeap
