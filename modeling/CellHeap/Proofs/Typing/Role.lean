import CellHeap.Proofs.Cell.Header
import CellHeap.Proofs.Sequence.Storage
import CellHeap.Proofs.Session
import Mathlib.Algebra.Group.Nat.Even

/-!
# Roles of buffers

A buffer gets a role when it is placed, and no handle ever changes its role. The
role says what the contents look like as long as they can be read and which cells
they may hold; the payload of a cell names buffers of the roles that its kind
asks for. Roles are not stored anywhere: they are what the program relies on.
-/

set_option autoImplicit false

namespace CellHeap

/-- How deep cells of a kind may stand inside each other without a list, context or map between
them. -/
def Kind.rank : Kind → Nat
  | .path => 4
  | .chain => 3
  | .tuple | .pair => 2
  | _ => 1

inductive Role where
  | text
  | bytes
  | list
  /-- The elements of a sequence, in a pairing or in an array. -/
  | sequence (kind : Kind) (form : ElementKind)
  | pair
  /-- The variables of a context, beside their keys. -/
  | varlist (keys : BufferId)
  | keylist
  /-- The keys and values of a map in turn. -/
  | pairlist
  /-- The description of a parameter or the body of a phase. -/
  | body

namespace Role

def Shape : Role → Buffer → Prop
  | .text, b => b.elementKind = .text
  | .bytes, b => b.elementKind = .bytes
  | .list, b => b.elementKind = .cells
  | .sequence _ form, b =>
    b.frozen = true ∧ b.elementKind = form ∧ (form = .cells ∨ form = .pairing)
  | .pair, b => b.frozen = true ∧ b.elementKind = .pairing
  | .varlist keys, b => b.elementKind = .cells ∧ b.keylist = some keys ∧ b.fixedSize = false
  | .keylist, b => b.elementKind = .cells
  | .pairlist, b => b.elementKind = .cells ∧ Even b.stored.length
  | .body, b => b.frozen = true ∧ b.elementKind = .cells

def Admits : Role → Cell → Prop
  | .text, _ | .bytes, _ => True
  | .sequence kind _, c => c.isElement = true ∧ c.kind.rank < kind.rank
  | .pair, c => c.isElement = true ∧ c.kind.isNumber = true
  | .varlist _, c => c.isUnstable = false
  | .keylist, c => ∃ s, c = .word s
  | .list, c | .pairlist, c | .body, c => c.isElement = true

structure Fits (r : Role) (b : Buffer) : Prop where
  shape : r.Shape b
  admits : ∀ c ∈ b.stored, r.Admits c

def Backs : Role → Kind → Prop
  | .text, k => k.isString = true ∨ k = .rune
  | .bytes, k => k = .blob
  | .list, k => k.isList = true
  | _, _ => False

end Role

abbrev Roles := BufferId → Option Role

namespace Roles

def Le (R S : Roles) : Prop := ∀ id r, R id = some r → S id = some r

theorem le_refl (R : Roles) : R.Le R := fun _ _ h => h

theorem Le.trans {R S T : Roles} (hrs : R.Le S) (hst : S.Le T) : R.Le T :=
  fun id r h => hst id r (hrs id r h)

def assign (R : Roles) (id : BufferId) (r : Role) : Roles :=
  fun j => if j = id then some r else R j

theorem assign_self (R : Roles) (id : BufferId) (r : Role) : R.assign id r id = some r := by
  simp [assign]

theorem assign_of_ne (R : Roles) {id j : BufferId} (r : Role) (hj : j ≠ id) :
    R.assign id r j = R j := by
  simp [assign, hj]

theorem le_assign {R : Roles} {id : BufferId} (r : Role) (hid : R id = none) :
    R.Le (R.assign id r) := by
  intro j s hj
  have hne : j ≠ id := by
    intro he
    rw [he, hid] at hj
    cases hj
  rw [assign_of_ne R r hne, hj]

end Roles

def Cell.Typed (R : Roles) (c : Cell) : Prop :=
  match c.payload with
  | .empty => c.kind = .blank ∨ c.kind = .comma
  | .integer _ => c.kind = .integer
  | .decimal _ => c.kind = .decimal ∨ c.kind = .percent
  | .inline b => c.kind = .rune ∧ b.text?.isSome = true
  | .word _ => c.kind = .word
  | .series id _ => ∃ r, R id = some r ∧ r.Backs c.kind
  | .sequence (.pair id) => c.kind.isSequence = true ∧ R id = some (.sequence c.kind .pairing)
  | .sequence (.array id) => c.kind.isSequence = true ∧ R id = some (.sequence c.kind .cells)
  | .sequence _ => c.kind.isSequence = true
  | .pairing id => c.kind = .pair ∧ R id = some .pair
  | .context v =>
    (c.kind = .object ∨ c.kind = .module ∨ c.kind = .error) ∧ ∃ k, R v = some (.varlist k)
  | .frame v _ => c.kind = .frame ∧ ∃ k, R v = some (.varlist k)
  | .parameter spec _ _ _ => c.kind = .parameter ∧ ∀ id ∈ spec, R id = some .body
  | .handle _ _ => c.kind = .handle
  | .map id => c.kind = .map ∧ R id = some .pairlist

namespace Cell

variable {R S : Roles} {c d : Cell}

theorem Typed.mono (ht : c.Typed R) (hle : R.Le S) : c.Typed S := by
  unfold Typed at ht ⊢
  cases hp : c.payload with
  | empty | integer | decimal | inline | word | handle =>
    rw [hp] at ht
    exact ht
  | series id i =>
    rw [hp] at ht
    obtain ⟨r, hr, hb⟩ := ht
    exact ⟨r, hle id r hr, hb⟩
  | sequence s =>
    rw [hp] at ht
    cases s with
    | bytes | word => exact ht
    | pair id | array id => exact ⟨ht.1, hle id _ ht.2⟩
  | pairing id | map id =>
    rw [hp] at ht
    exact ⟨ht.1, hle id _ ht.2⟩
  | context v | frame v l =>
    rw [hp] at ht
    obtain ⟨hk, k, hv⟩ := ht
    exact ⟨hk, k, hle v _ hv⟩
  | parameter spec m t f =>
    rw [hp] at ht
    exact ⟨ht.1, fun id hid => hle id _ (ht.2 id hid)⟩

theorem Rehead.typed (hr : c.Rehead d) (ht : c.Typed R) : d.Typed R := by
  unfold Typed at ht ⊢
  rw [hr.kind, hr.payload]
  exact ht

theorem typed_of_rune? {s : String} (hc : rune? s = some c) : c.Typed R := by
  obtain ⟨b, hb, hcb⟩ := Option.map_eq_some_iff.1 hc
  subst hcb
  exact ⟨rfl, by rw [InlineBytes.text?_of_ofText? hb]; rfl⟩

theorem Primitive.typed (hc : c.Primitive) : c.Typed R := by
  cases hc with
  | erased | blank | trash => exact Or.inl rfl
  | comma => exact Or.inr rfl
  | integer | word | handle => exact rfl
  | decimal => exact Or.inl rfl
  | percent => exact Or.inr rfl
  | rune hc => exact typed_of_rune? hc
  | runeChar ch =>
    unfold Cell.runeChar
    cases hr : rune? (String.singleton ch) with
    | some d => exact typed_of_rune? hr
    | none => exact ⟨rfl, by decide⟩
  | parameter => exact ⟨rfl, by simp⟩

theorem Reworked.typed {h : Heap} (hd : c.Reworked h d) (ht : c.Typed R) : d.Typed R := by
  apply hd.elim
  · intro d hr
    exact hr.typed ht
  · intro id i j hp
    unfold Typed at ht ⊢
    rw [hp] at ht
    exact ht
  · intro v l l' hp
    unfold Typed at ht ⊢
    rw [hp] at ht
    exact ht

end Cell

theorem Kind.one_lt_rank {k : Kind} (hk : k.isSequence = true) : 1 < k.rank := by
  cases k <;> first | cases hk; done | decide

theorem Sequence.rank_lt_of_mayNest {outer inner : Kind} (hn : mayNest outer inner = true) :
    inner.rank < outer.rank := by
  unfold mayNest at hn
  split at hn
  · decide
  · decide
  · decide
  · cases hn

/-- An element that a sequence takes is of a lower rank. -/
theorem Sequence.rank_lt_of_objection? {h : Heap} {k : Kind} {i n : Nat} {e : Cell}
    (hk : k.isSequence = true) (ho : objection? h k i n e = none) : e.kind.rank < k.rank := by
  have hb := isBare_of_objection? ho
  have hone := Kind.one_lt_rank hk
  simp only [objection?, hb, Bool.not_true, Bool.false_eq_true, if_false] at ho
  cases he : e.kind with
  | tuple | chain | path =>
    apply rank_lt_of_mayNest
    simpa [he] using ho
  | pair => simp [he] at ho
  | _ => exact hone

end CellHeap
