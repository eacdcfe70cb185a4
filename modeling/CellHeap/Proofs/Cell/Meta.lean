import CellHeap.Proofs.Cell.Request

/-!
# One step up, one step down

An antiform stands one step under its quasiform, and every other cell one step
under itself with one more quote. On lifts alone the two steps are inverse
partial maps: the way up ends at the greatest depth, the way down at plain and
at the antiform. The operations on cells take these steps and keep the rest of
the cell, and coherence is what lets a quasiform become an antiform.
-/

set_option autoImplicit false

namespace CellHeap

namespace Lift

def up (l : Lift) : Except Fault Lift := if l = .anti then .ok .quasi else l.quotify 1

def down (l : Lift) : Except Fault Lift := if l = .quasi then .ok .anti else l.unquotify 1

variable {l l' : Lift} {n : Nat} {e : Fault}

theorem quotedOver_eq_error_iff {q : Bool} (hn : 0 < n) :
    quotedOver q n = .error e ↔ maxQuoteDepth < n ∧ e = .quoteOverflow n := by
  unfold quotedOver QuoteDepth.ofNat?
  by_cases hmax : n ≤ maxQuoteDepth
  · simp [hn, hmax, Nat.not_lt.2 hmax]
  · simp [hmax, Nat.lt_of_not_le hmax, eq_comm]

theorem up_eq_error_iff :
    l.up = .error e ↔ l.depth = maxQuoteDepth ∧ e = .quoteOverflow (maxQuoteDepth + 1) := by
  cases l with
  | anti => simp [up, maxQuoteDepth]
  | plain | quasi => simp [up, quotify, quotedOver_eq_error_iff, maxQuoteDepth]
  | quoted d q =>
    have hle := d.le_max
    have htop : maxQuoteDepth < d.level + 1 ↔ d.level = maxQuoteDepth := by omega
    simp only [up, quotify, reduceCtorEq, Nat.one_ne_zero, if_false, depth_quoted,
      quotedOver_eq_error_iff (Nat.succ_pos d.level), htop]
    constructor
    · rintro ⟨hd, rfl⟩
      exact ⟨hd, by rw [hd]⟩
    · rintro ⟨hd, rfl⟩
      exact ⟨hd, by rw [hd]⟩

theorem unquotify_one_eq_error_iff :
    l.unquotify 1 = .error e ↔ l.depth = 0 ∧ e = .quoteUnderflow 1 0 := by
  unfold unquotify
  by_cases hd : l.depth = 0
  · simp [hd, eq_comm]
  · rw [if_neg Nat.one_ne_zero, if_neg (by omega)]
    cases QuoteDepth.ofNat? (l.depth - 1) <;> simp [hd]

theorem down_eq_error_iff :
    l.down = .error e ↔ (l = .plain ∨ l = .anti) ∧ e = .quoteUnderflow 1 0 := by
  cases l with
  | quasi => simp [down]
  | anti | plain => simp [down, unquotify_one_eq_error_iff]
  | quoted d q => simp [down, unquotify_one_eq_error_iff, Nat.ne_of_gt d.pos]

/-- One quote less and one more. -/
theorem quotify_unquotify (hl : l.unquotify 1 = .ok l') : l' ≠ .anti ∧ l'.quotify 1 = .ok l := by
  have hdepth := depth_unquotify hl
  have hbase := base_unquotify hl
  cases l with
  | anti | plain | quasi => simp [depth] at hdepth
  | quoted d q =>
    have hplus : quotedOver q (l'.depth + 1) = .ok (.quoted d q) := by
      rw [hdepth, depth_quoted, quotedOver, QuoteDepth.ofNat?_level]
    cases l' with
    | anti => cases q <;> cases hbase
    | plain | quasi =>
      cases q <;> cases hbase
      exact ⟨by simp, hplus⟩
    | quoted d' q' =>
      obtain rfl : q' = q := by cases q <;> cases q' <;> simp [base] at hbase ⊢
      exact ⟨by simp, hplus⟩

theorem up_eq_ok_iff : l.up = .ok l' ↔ l'.down = .ok l := by
  constructor
  · intro hup
    unfold up at hup
    by_cases ha : l = .anti
    · rw [if_pos ha] at hup
      cases hup
      rw [ha]
      rfl
    · rw [if_neg ha] at hup
      obtain ⟨hdown, hquasi⟩ := unquotify_quotify hup
      rw [down, if_neg (by simpa using hquasi)]
      exact hdown
  · intro hdown
    unfold down at hdown
    by_cases hq : l' = .quasi
    · rw [if_pos hq] at hdown
      cases hdown
      rw [hq]
      rfl
    · rw [if_neg hq] at hdown
      obtain ⟨ha, hup⟩ := quotify_unquotify hdown
      rw [up, if_neg ha]
      exact hup

end Lift

namespace Cell

variable {c d : Cell} {e : Fault}

def relift (c : Cell) (x : Except Fault Lift) : Except Fault Cell := return { c with lift := ← x }

theorem relift_eq_ok_iff {x : Except Fault Lift} :
    c.relift x = .ok d ↔ x = .ok d.lift ∧ d = { c with lift := d.lift } := by
  unfold relift
  rw [bind_eq_ok_iff]
  constructor
  · rintro ⟨l, hx, hd⟩
    cases hd
    exact ⟨hx, rfl⟩
  · rintro ⟨hx, hd⟩
    exact ⟨d.lift, hx, by rw [pure_eq_ok, ← hd]⟩

theorem relift_eq_error_iff {x : Except Fault Lift} : c.relift x = .error e ↔ x = .error e := by
  cases x <;> simp [relift]

theorem toMeta_eq_relift (c : Cell) : c.toMeta = c.relift c.lift.up := by
  unfold toMeta Lift.up
  by_cases ha : c.lift = .anti
  · rw [if_pos (by simpa [isAntiform] using ha), if_pos ha]
    rfl
  · rw [if_neg (by simpa [isAntiform] using ha), if_neg ha]
    rfl

/-- The kind of a coherent quasiform has an antiform, so that the step down is never refused there. -/
theorem Coherent.ofMeta_eq_relift (hc : c.Coherent) : c.ofMeta = c.relift c.lift.down := by
  unfold Cell.ofMeta Lift.down
  by_cases hq : c.lift = .quasi
  · obtain ⟨hk, hs⟩ := hc.form (by simp [hq, Lift.base])
    rw [if_pos (by simpa [isQuasiform] using hq), if_pos hq]
    exact toAntiform_any c hk hs (by simp [isQuoted, quoteDepth, hq])
  · rw [if_neg (by simpa [isQuasiform] using hq), if_neg hq]
    rfl

theorem Coherent.toMeta_ofMeta (hc : c.Coherent) (hd : c.ofMeta = .ok d) : d.toMeta = .ok c := by
  rw [hc.ofMeta_eq_relift, relift_eq_ok_iff] at hd
  rw [toMeta_eq_relift, relift_eq_ok_iff]
  refine ⟨Lift.up_eq_ok_iff.2 hd.1, ?_⟩
  rw [hd.2]

theorem Coherent.assignMeta_readMeta {slot : Cell} (hc : c.Coherent) (hd : c.toMeta = .ok d)
    (hs : slot.isLocked = false) : Variable.assignMeta slot c = .ok d.unflagged ∧
      Variable.readMeta d.unflagged = .ok c.unflagged := by
  refine ⟨?_, hc.readMeta_unflagged hd⟩
  have hcopy : d.copyInto slot = d.unflagged := by
    rw [copyInto_eq, hs]
    rfl
  simp [Variable.assignMeta, Variable.checkWritable, hs, hd, hcopy]

/-- Under a valid header the step up fails at the greatest depth only and the step down on plain cells
and antiforms only. Each takes the other back and changes nothing but the lift. So a variable that
is not protected takes every value of a smaller depth by the step up, is no antiform then, and gives
the value back by the step down, with the flags that travel. -/
theorem meta_steps_inverse (c : Cell) (hv : c.header.Valid) :
    (∀ e, c.toMeta = .error e ↔ c.quoteDepth = 126 ∧ e = .quoteOverflow 127) ∧
    (∀ e, c.ofMeta = .error e ↔
      (c.lift = .plain ∨ c.isAntiform = true) ∧ e = .quoteUnderflow 1 0) ∧
    (∀ d, c.toMeta = .ok d → d.ofMeta = .ok c ∧ d = { c with lift := d.lift }) ∧
    (∀ d, c.ofMeta = .ok d → d.toMeta = .ok c ∧ d = { c with lift := d.lift }) ∧
    ∀ slot : Cell, slot.isLocked = false → c.quoteDepth < 126 →
      ∃ stored, Variable.assignMeta slot c = .ok stored ∧ stored.isAntiform = false ∧
        Variable.readMeta stored =
          .ok { c with flags := { const := c.flags.const, newline := c.flags.newline } } := by
  have hc : c.Coherent := header_valid_iff.1 hv
  have hup : ∀ e, c.toMeta = .error e ↔ c.quoteDepth = 126 ∧ e = .quoteOverflow 127 := by
    intro e
    rw [toMeta_eq_relift, relift_eq_error_iff]
    exact Lift.up_eq_error_iff
  refine ⟨hup, fun e => ?_, fun d hd => ⟨hc.ofMeta_toMeta hd, ?_⟩,
    fun d hd => ⟨hc.toMeta_ofMeta hd, ?_⟩, fun slot hs hdepth => ?_⟩
  · rw [hc.ofMeta_eq_relift, relift_eq_error_iff, Lift.down_eq_error_iff, isAntiform, beq_iff_eq]
  · rw [toMeta_eq_relift, relift_eq_ok_iff] at hd
    exact hd.2
  · rw [hc.ofMeta_eq_relift, relift_eq_ok_iff] at hd
    exact hd.2
  · cases hd : c.toMeta with
    | error e => exact absurd ((hup e).1 hd).1 (Nat.ne_of_lt hdepth)
    | ok d =>
      obtain ⟨hassign, hread⟩ := hc.assignMeta_readMeta hd hs
      exact ⟨d.unflagged, hassign, isAntiform_of_toMeta (unflagged_toMeta hd), hread⟩

/-- An unstable antiform, read-only and protected, has no step down, goes into a variable and comes
back; a cell at the greatest depth has no step up. -/
theorem meta_steps_inverse_ghost :
    let ghost := { Cell.comma with lift := .anti, flags := { const := true, locked := true } }
    let deep := { Cell.integer 5 with lift := .quoted ⟨126, by decide, by decide⟩ false }
    ghost.header.Valid ∧ ghost.isUnstable = true ∧ ghost.ofMeta = .error (.quoteUnderflow 1 0) ∧
    (∃ stored, Variable.assignMeta .trash ghost = .ok stored ∧ stored.isAntiform = false ∧
      Variable.readMeta stored = .ok { ghost with flags := { const := true } }) ∧
    deep.header.Valid ∧ deep.toMeta = .error (.quoteOverflow 127) := by
  intro ghost deep
  have hghost : ghost.header.Valid :=
    header_valid_iff.2 ((coherent_lifted rfl .empty .anti).congr rfl rfl rfl rfl)
  have hdeep : deep.header.Valid :=
    header_valid_iff.2 ((coherent_bare .integer (.integer 5)).congr rfl rfl rfl rfl)
  refine ⟨hghost, rfl, ?_, ?_, hdeep, ?_⟩
  · exact ((meta_steps_inverse ghost hghost).2.1 _).2 ⟨Or.inr rfl, rfl⟩
  · exact (meta_steps_inverse ghost hghost).2.2.2.2 .trash rfl (by decide)
  · exact ((meta_steps_inverse deep hdeep).1 _).2 ⟨rfl, rfl⟩

end Cell

end CellHeap
