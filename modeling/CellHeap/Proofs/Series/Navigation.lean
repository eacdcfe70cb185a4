import CellHeap.Proofs.Series.Elements
import Mathlib.Algebra.Order.BigOperators.Group.List
import Mathlib.Algebra.Order.Ring.Int

/-!
# Moving along a series

A move takes the position of a cell to another one between the two ends of its
buffer, and changes nothing else of the cell. Where it goes is integer arithmetic
cut at both ends, so moves in one direction add up. The buffer is taken to be no
longer than the greatest position there is.
-/

set_option autoImplicit false

namespace CellHeap.Series

variable {h : Heap} {c : Cell} {id : BufferId} {i j : Nat} {b : Buffer}

structure MovesTo (h : Heap) (c : Cell) (id : BufferId) (b : Buffer) (x : Except Fault Cell)
    (j : Nat) : Prop where
  cell : x = .ok { c with payload := .series id j }
  inside : j ≤ b.length
  length : lengthAt h { c with payload := .series id j } = .ok (b.length - j)

theorem withIndex_movesTo (hp : c.payload = .series id i) (hb : h.read id = .ok b)
    (hj : j ≤ b.length) : MovesTo h c id b (withIndex c j) j := by
  refine ⟨?_, hj, lengthAt_of_checked (checked_of_le rfl hb hj)⟩
  simp [withIndex, parts, hp]

/-- The position is the one that integers give, cut at both ends. -/
theorem skip_movesTo (hp : c.payload = .series id i) (hb : h.read id = .ok b)
    (hlen : b.length ≤ maxIndex) (hi : i ≤ b.length) (n : Int) :
    MovesTo h c id b (skip h c n) (max 0 (min (b.length : Int) (i + n))).toNat := by
  have hcut : min (min (i + n).toNat maxIndex) b.length =
      (max 0 (min (b.length : Int) (i + n))).toNat := by omega
  have hskip : skip h c n = withIndex c (min (min (i + n).toNat maxIndex) b.length) := by
    rw [skip, checked_of_le hp hb hi, ok_bind]
  rw [hskip, hcut]
  exact withIndex_movesTo hp hb (by omega)

theorem tail_movesTo (hp : c.payload = .series id i) (hb : h.read id = .ok b)
    (hi : i ≤ b.length) : MovesTo h c id b (tail h c) b.length := by
  have htail : tail h c = withIndex c b.length := by simp [tail, checked_of_le hp hb hi]
  rw [htail]
  exact withIndex_movesTo hp hb (Nat.le_refl _)

/-- Two moves in one direction are one: an end that the first has reached, the second does not
leave. -/
theorem skip_skip (hp : c.payload = .series id i) (hb : h.read id = .ok b)
    (hlen : b.length ≤ maxIndex) (hi : i ≤ b.length) {m n : Int}
    (hsign : 0 ≤ m ∧ 0 ≤ n ∨ m ≤ 0 ∧ n ≤ 0) :
    (skip h c m >>= fun d => skip h d n) = skip h c (m + n) := by
  have hfirst := skip_movesTo hp hb hlen hi m
  rw [hfirst.cell, ok_bind, (skip_movesTo rfl hb hlen hfirst.inside n).cell,
    (skip_movesTo hp hb hlen hi (m + n)).cell]
  have hsum : (max 0 (min (b.length : Int)
      ((max 0 (min (b.length : Int) (i + m))).toNat + n))).toNat =
        (max 0 (min (b.length : Int) (i + (m + n)))).toNat := by omega
  rw [hsum]

/-- A row of moves in one direction is one move by their sum. -/
theorem foldlM_skip (hp : c.payload = .series id i) (hb : h.read id = .ok b)
    (hlen : b.length ≤ maxIndex) (hi : i ≤ b.length) {ns : List Int}
    (hsign : (∀ n ∈ ns, 0 ≤ n) ∨ ∀ n ∈ ns, n ≤ 0) : ns.foldlM (skip h) c = skip h c ns.sum := by
  induction ns generalizing c i with
  | nil =>
    have hstay : (max 0 (min (b.length : Int) (i + 0))).toNat = i := by omega
    have hskip := (skip_movesTo hp hb hlen hi 0).cell
    rw [hstay, ← hp] at hskip
    exact hskip.symm
  | cons n ns ih =>
    have hrest : (∀ m ∈ ns, 0 ≤ m) ∨ ∀ m ∈ ns, m ≤ 0 :=
      hsign.imp (fun hpos m hm => hpos m (List.mem_cons_of_mem n hm))
        fun hneg m hm => hneg m (List.mem_cons_of_mem n hm)
    have hsame : 0 ≤ n ∧ 0 ≤ ns.sum ∨ n ≤ 0 ∧ ns.sum ≤ 0 := by
      rcases hsign with hpos | hneg
      · have hsum := List.sum_nonneg fun m hm => hpos m (List.mem_cons_of_mem n hm)
        exact Or.inl ⟨hpos n List.mem_cons_self, hsum⟩
      · have hsum := ns.sum_le_card_nsmul 0 fun m hm => hneg m (List.mem_cons_of_mem n hm)
        rw [nsmul_zero] at hsum
        exact Or.inr ⟨hneg n List.mem_cons_self, hsum⟩
    have hfirst := skip_movesTo hp hb hlen hi n
    rw [List.foldlM_cons, List.sum_cons, ← skip_skip hp hb hlen hi hsame, hfirst.cell, ok_bind,
      ok_bind]
    exact ih rfl hfirst.inside hrest

/-- Over a buffer that can be read, a move leads to the position that integer arithmetic gives, cut
at both ends of the buffer, and to the ends themselves; nothing but the position changes, and the
series can be read from there. Moves in one direction add up. From a position past the end only the
way to the head is open. -/
theorem navigation_clamped (h : Heap) (c : Cell) (id : BufferId) (i : Nat) (b : Buffer)
    (hp : c.payload = .series id i) (hb : h.read id = .ok b) (hlen : b.length ≤ maxIndex) :
    (i ≤ b.length →
      (∀ n : Int, ∃ j : Nat, (j : Int) = max 0 (min (b.length : Int) (i + n)) ∧
        MovesTo h c id b (skip h c n) j) ∧
      MovesTo h c id b (tail h c) b.length ∧
      (∀ m n : Int, 0 ≤ m ∧ 0 ≤ n ∨ m ≤ 0 ∧ n ≤ 0 →
        (skip h c m >>= fun d => skip h d n) = skip h c (m + n)) ∧
      ∀ ns : List Int, (∀ n ∈ ns, 0 ≤ n) ∨ (∀ n ∈ ns, n ≤ 0) →
        ns.foldlM (skip h) c = skip h c ns.sum) ∧
    (b.length < i →
      (∀ n, skip h c n = .error (.outOfRange i b.length)) ∧
      tail h c = .error (.outOfRange i b.length)) ∧
    MovesTo h c id b (head c) 0 := by
  refine ⟨fun hi => ⟨fun n => ?_, tail_movesTo hp hb hi, fun m n hsign => skip_skip hp hb hlen hi hsign,
    fun ns hsign => foldlM_skip hp hb hlen hi hsign⟩, fun hi => ?_,
    withIndex_movesTo hp hb (Nat.zero_le _)⟩
  · exact ⟨_, Int.toNat_of_nonneg (by omega), skip_movesTo hp hb hlen hi n⟩
  · have hpast := checked_of_lt hp hb hi
    exact ⟨fun n => by simp [skip, hpast], by simp [tail, hpast]⟩

/-- The longest moves of 64 bits in either direction, from behind a wide character; then the buffer
is cut before the cell. -/
theorem navigation_clamped_extremes :
    let view (j : Nat) := Cell.bare .text (.series ⟨0, 0⟩ j)
    let before := (Heap.new {}).run [.makeString .text "aéz"]
    let after := before.run [.truncate (view 0) 1]
    ∃ b b', before.read ⟨0, 0⟩ = .ok b ∧ b.length = 3 ∧ after.read ⟨0, 0⟩ = .ok b' ∧ b'.length = 1 ∧
      skip before (view 2) (-9223372036854775808) = .ok (view 0) ∧
      skip before (view 2) 9223372036854775807 = .ok (view 3) ∧
      [1, 0, 9223372036854775806].foldlM (skip before) (view 0) = .ok (view 3) ∧
      skip after (view 2) (-1) = .error (.outOfRange 2 1) ∧
      head (view 2) = .ok (view 0) ∧ lengthAt after (view 0) = .ok 1 := by
  intro view before after
  have hlong : ∃ b, before.read ⟨0, 0⟩ = .ok b ∧ b.length = 3 := ⟨_, rfl, by decide +kernel⟩
  have hshort : ∃ b, after.read ⟨0, 0⟩ = .ok b ∧ b.length = 1 := ⟨_, rfl, by decide +kernel⟩
  obtain ⟨b, hb, hlength⟩ := hlong
  obtain ⟨b', hb', hlength'⟩ := hshort
  have hmax : 3 ≤ maxIndex := by decide
  obtain ⟨hinside, _, _⟩ := navigation_clamped before (view 2) ⟨0, 0⟩ 2 b rfl hb (by omega)
  obtain ⟨hfront, _, _⟩ := navigation_clamped before (view 0) ⟨0, 0⟩ 0 b rfl hb (by omega)
  obtain ⟨_, hpast, hhead⟩ := navigation_clamped after (view 2) ⟨0, 0⟩ 2 b' rfl hb' (by omega)
  obtain ⟨hskip, _, _, _⟩ := hinside (by omega)
  obtain ⟨hskip', _, _, hrow⟩ := hfront (by omega)
  obtain ⟨j, hj, hback⟩ := hskip (-9223372036854775808)
  obtain ⟨k, hk, hforth⟩ := hskip 9223372036854775807
  obtain ⟨l, hl, hall⟩ := hskip' 9223372036854775807
  obtain rfl : j = 0 := by omega
  obtain rfl : k = 3 := by omega
  obtain rfl : l = 3 := by omega
  have hfails := (hpast (by omega)).1 (-1)
  have hrest := hhead.length
  rw [hlength'] at hfails hrest
  have hsum := hrow [1, 0, 9223372036854775806] (Or.inl (by decide))
  exact ⟨b, b', hb, hlength, hb', hlength', hback.cell, hforth.cell, hsum.trans hall.cell, hfails,
    hhead.cell, hrest⟩

end CellHeap.Series
