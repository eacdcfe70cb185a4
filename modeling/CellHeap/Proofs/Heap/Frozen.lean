import CellHeap.Proofs.Heap.Lifetime

/-!
# Frozen buffers do not change

A frozen buffer may still be managed, decay or leave its slot, but no operation
edits it, whatever cells it is given. So as long as it stays in its slot, all that
is ever read of it is what was read when it was frozen.
-/

set_option autoImplicit false

namespace CellHeap

def Buffer.Unaltered (b b' : Buffer) : Prop :=
  b' = { b with managed := b'.managed, liveness := b'.liveness }

/-- What a step makes of a frozen buffer, as long as it can be read. -/
theorem Fate.unaltered {op : Operation} {id : BufferId} {b c c' : Buffer} (hz : b.frozen = true)
    (hf : Fate op id c (some c')) (hc : c.liveness = .decayed ∨ b.Unaltered c) :
    c'.liveness = .decayed ∨ b.Unaltered c' := by
  have hsame : c.liveness ≠ .decayed → b.Unaltered c := hc.resolve_left
  cases hf with
  | same => exact hc
  | edited _ hl hnot =>
    rw [hsame hl] at hnot
    exact absurd (hz.symm.trans hnot) (by decide)
  | managed hl =>
    apply Or.inr
    rw [Buffer.Unaltered, hsame hl]
    rfl
  | frozen hl =>
    apply Or.inr
    rw [Buffer.Unaltered, hsame hl, ← hz]
  | decayed => exact Or.inl rfl

namespace Heap

theorem run_unaltered {h : Heap} {id : BufferId} {b b' : Buffer} (ops : List Operation)
    (hops : h.Throughout (Operation.Retains id) ops) (hs : h.Sound) (hr : h.read id = .ok b)
    (hz : b.frozen = true) (hr' : (h.run ops).read id = .ok b') : b.Unaltered b' := by
  obtain ⟨hb', hl'⟩ := read_eq_ok_iff.1 hr'
  have hsame := run_keeps (P := fun c => c.liveness = .decayed ∨ b.Unaltered c)
    (fun _ _ _ => Fate.unaltered hz) ops hops hs (buffer?_of_read hr) (Or.inr rfl) hb'
  exact hsame.resolve_left hl'

/-- Once a buffer is frozen, its contents, its list of keys and its label stay what they are and
it stays frozen, for as long as it is in its slot and can be read: no run of operations, through
whatever cells, changes them. -/
theorem frozen_immutable (config : Config) (before rest : List Operation) (id : BufferId)
    (b b' : Buffer) (hr : ((Heap.new config).run before).read id = .ok b) (hz : b.frozen = true)
    (hrest : ((Heap.new config).run before).Throughout (Operation.Retains id) rest)
    (hr' : ((Heap.new config).run (before ++ rest)).read id = .ok b') :
    b'.contents = b.contents ∧ b'.keylist = b.keylist ∧ b'.label = b.label ∧ b'.frozen = true := by
  rw [run_append] at hr'
  have hsame : b' = _ := run_unaltered rest hrest (reachable_sound config before) hr hz hr'
  rw [hsame]
  exact ⟨rfl, rfl, rfl, hz⟩

/-- The variables of a context, frozen and then written and cut through cells that share them. -/
theorem frozen_immutable_shared :
    let object := Cell.bare .object (.context ⟨1, 0⟩)
    let shared := Cell.bare .block (.series ⟨1, 0⟩ 0)
    let before := [.makeContext .object [(⟨0⟩, .blank)], .freeze ⟨1, 0⟩]
    let rest := [.writeVariable object ⟨0⟩ .comma, .truncate shared 0, .manage ⟨1, 0⟩]
    ∃ b b', ((Heap.new {}).run before).read ⟨1, 0⟩ = .ok b ∧ b.frozen = true ∧
      ((Heap.new {}).run (before ++ rest)).read ⟨1, 0⟩ = .ok b' ∧
      b'.contents = b.contents ∧ b'.keylist = b.keylist ∧ b'.label = b.label ∧
      b'.frozen = true := by
  intro object shared before rest
  have hrest : ((Heap.new {}).run before).Throughout (Operation.Retains ⟨1, 0⟩) rest := by
    decide +kernel
  exact ⟨_, _, rfl, rfl, rfl, frozen_immutable {} before rest ⟨1, 0⟩ _ _ rfl rfl hrest rfl⟩

end Heap

end CellHeap
