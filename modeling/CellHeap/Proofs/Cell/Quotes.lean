import CellHeap.Proofs.Cell.Meta

/-!
# Quotes are counted

Quoting and unquoting change one number of a cell, its quote depth, and keep what
stands under the quotes. So a row of such steps, failed ones included, moves a
counter between zero and the greatest depth; where every step succeeds, the cell
at the end depends on the sum of the steps alone. An antiform takes no quotes and
has none to lose.
-/

set_option autoImplicit false

namespace CellHeap

namespace Lift

variable {l l' : Lift} {n : Nat}

/-- A lift is what stands under its quotes together with their number. -/
theorem eq_of_base_of_depth (hb : l.base = l'.base) (hd : l.depth = l'.depth) : l = l' := by
  cases l with
  | quoted d q =>
    cases l' with
    | quoted d' q' =>
      obtain ⟨level, _, _⟩ := d
      obtain ⟨level', _, _⟩ := d'
      obtain rfl : level = level' := hd
      obtain rfl : q = q' := by cases q <;> cases q' <;> simp [base] at hb ⊢
      rfl
    | anti | plain | quasi => exact absurd hd (Nat.ne_of_gt d.pos)
  | anti | plain | quasi =>
    cases l' with
    | quoted d' q' => exact absurd hd.symm (Nat.ne_of_gt d'.pos)
    | anti | plain | quasi => exact hb

theorem base_eq_anti_iff : l.base = .anti ↔ l = .anti := by
  rw [← form_eq_anti_iff, ← form_eq_anti_iff, form_base]

theorem quotify_of_lt (ha : l ≠ .anti) (hn : maxQuoteDepth < l.depth + n) :
    l.quotify n = .error (.quoteOverflow (l.depth + n)) := by
  have hpos : 0 < n := by
    have hle := l.depth_le
    omega
  unfold quotify
  rw [if_neg (Nat.ne_of_gt hpos)]
  cases l with
  | anti => exact absurd rfl ha
  | plain | quasi =>
    simp only [depth_plain, depth_quasi, Nat.zero_add] at hn ⊢
    exact (quotedOver_eq_error_iff hpos).2 ⟨hn, rfl⟩
  | quoted d q => exact (quotedOver_eq_error_iff (Nat.add_pos_left d.pos n)).2 ⟨hn, rfl⟩

theorem unquotify_of_lt (hn : l.depth < n) :
    l.unquotify n = .error (.quoteUnderflow n l.depth) := by
  unfold unquotify
  rw [if_neg (Nat.ne_of_gt (Nat.zero_lt_of_lt hn)), if_pos hn]

end Lift

inductive QuoteStep where
  | quote (n : Nat)
  | unquote (n : Nat)

namespace QuoteStep

def request : QuoteStep → Request
  | quote n => .quotify n
  | unquote n => .unquotify n

def amount : QuoteStep → Nat
  | quote n | unquote n => n

def change : QuoteStep → Int
  | quote n => n
  | unquote n => -n

def count : QuoteStep → Nat → Except Fault Nat
  | quote n, d => if d + n ≤ 126 then .ok (d + n) else .error (.quoteOverflow (d + n))
  | unquote n, d => if n ≤ d then .ok (d - n) else .error (.quoteUnderflow n d)

def tick (s : QuoteStep) (d : Nat) : Nat :=
  match s.count d with
  | .ok d' => d'
  | .error _ => d

def refusal : QuoteStep → Fault
  | quote _ => .antiformNotQuotable
  | unquote n => .quoteUnderflow n 0

def tally (d : Nat) : List QuoteStep → Nat
  | [] => d
  | s :: steps => tally (s.tick d) steps

def net : List QuoteStep → Int
  | [] => 0
  | s :: steps => s.change + net steps

end QuoteStep

namespace Cell

variable {c d e : Cell} {s : QuoteStep}

def requote (c : Cell) : List QuoteStep → Cell
  | [] => c
  | s :: steps => (s.request.after c).requote steps

def requoteAll (c : Cell) (steps : List QuoteStep) : Except Fault Cell :=
  steps.foldlM (fun d s => s.request.apply d) c

structure Requoted (c d : Cell) : Prop where
  rest : d = { c with lift := d.lift }
  base : d.lift.base = c.lift.base

namespace Requoted

theorem refl (c : Cell) : c.Requoted c := ⟨rfl, rfl⟩

theorem trans (hd : c.Requoted d) (he : d.Requoted e) : c.Requoted e := by
  constructor
  · rw [he.rest, hd.rest]
  · rw [he.base, hd.base]

theorem isAntiform (hd : c.Requoted d) : d.isAntiform = c.isAntiform := by
  rw [Bool.eq_iff_iff, Cell.isAntiform, Cell.isAntiform, beq_iff_eq, beq_iff_eq,
    ← Lift.base_eq_anti_iff, hd.base, Lift.base_eq_anti_iff]

theorem eq_of_depth (hd : c.Requoted d) (he : c.Requoted e) (hn : d.quoteDepth = e.quoteDepth) :
    d = e := by
  have hlift : d.lift = e.lift := Lift.eq_of_base_of_depth (hd.base.trans he.base.symm) hn
  rw [hd.rest, he.rest, hlift]

end Requoted

/-- A step that succeeds adds its change to the depth and nothing else. -/
theorem requoted_of_apply (hd : s.request.apply c = .ok d) :
    c.Requoted d ∧ (d.quoteDepth : Int) = c.quoteDepth + s.change := by
  cases s with
  | quote n =>
    obtain ⟨hl, hrest⟩ := (relift_eq_ok_iff (x := c.lift.quotify n)).1 hd
    have hdepth : d.quoteDepth = c.quoteDepth + n := Lift.depth_quotify hl
    refine ⟨⟨hrest, Lift.base_quotify hl⟩, ?_⟩
    rw [hdepth]
    rfl
  | unquote n =>
    obtain ⟨hl, hrest⟩ := (relift_eq_ok_iff (x := c.lift.unquotify n)).1 hd
    have hdepth : d.quoteDepth + n = c.quoteDepth := Lift.depth_unquotify hl
    refine ⟨⟨hrest, Lift.base_unquotify hl⟩, ?_⟩
    simp only [QuoteStep.change]
    omega

/-- Under any other cell than an antiform the depth is a counter. -/
theorem depth_of_apply (ha : c.isAntiform = false) (s : QuoteStep) :
    (s.request.apply c).map quoteDepth = s.count c.quoteDepth := by
  have hlift : c.lift ≠ .anti := by simpa [isAntiform] using ha
  -- a step goes through just where the counter does, and fails for the same reason
  have hok : ∀ {d}, s.request.apply c = .ok d → (s.request.apply c).map quoteDepth =
      .ok (c.quoteDepth + s.change).toNat := by
    intro d hd
    rw [hd, ← (requoted_of_apply hd).2]
    rfl
  cases s with
  | quote n =>
    by_cases hn : c.quoteDepth + n ≤ 126
    · obtain ⟨l, hl⟩ := Lift.quotify_eq_ok_of_le (l := c.lift) (n := n)
        (fun _ hf => hlift (Lift.form_eq_anti_iff.1 hf)) hn
      rw [hok (bind_eq_ok_iff.2 ⟨l, hl, rfl⟩), QuoteStep.count, if_pos hn]
      rfl
    · have hover := Lift.quotify_of_lt hlift (Nat.lt_of_not_le hn)
      rw [QuoteStep.count, if_neg hn]
      exact congrArg (Except.map quoteDepth) (relift_eq_error_iff.2 hover)
  | unquote n =>
    by_cases hn : n ≤ c.quoteDepth
    · obtain ⟨l, hl⟩ := Lift.unquotify_eq_ok_iff.2 hn
      rw [hok (bind_eq_ok_iff.2 ⟨l, hl, rfl⟩), QuoteStep.count, if_pos hn, QuoteStep.change]
      congr 1
      omega
    · have hunder := Lift.unquotify_of_lt (Nat.lt_of_not_le hn)
      rw [QuoteStep.count, if_neg hn]
      exact congrArg (Except.map quoteDepth) (relift_eq_error_iff.2 hunder)

theorem requoted_after (c : Cell) (s : QuoteStep) : c.Requoted (s.request.after c) := by
  unfold Request.after
  cases hd : s.request.apply c with
  | ok d => exact (requoted_of_apply hd).1
  | error _ => exact .refl c

theorem depth_after (ha : c.isAntiform = false) (s : QuoteStep) :
    (s.request.after c).quoteDepth = s.tick c.quoteDepth := by
  have hcount := depth_of_apply ha s
  unfold Request.after QuoteStep.tick
  rw [← hcount]
  cases s.request.apply c <;> rfl

/-- An antiform is left alone by a step of no quotes and refuses every other. -/
theorem apply_of_isAntiform (ha : c.isAntiform = true) (s : QuoteStep) :
    s.request.apply c = if s.amount = 0 then .ok c else .error s.refusal := by
  have hlift : c.lift = .anti := by simpa [isAntiform] using ha
  by_cases hn : s.amount = 0
  · rw [if_pos hn]
    cases s <;> cases hn <;> rfl
  · rw [if_neg hn]
    cases s with
    | quote n =>
      have hrefused : c.lift.quotify n = .error .antiformNotQuotable := by
        rw [hlift]
        exact if_neg hn
      exact relift_eq_error_iff.2 hrefused
    | unquote n =>
      have hzero : c.lift.depth = 0 := by rw [hlift]; rfl
      have hunder := Lift.unquotify_of_lt (hzero ▸ Nat.pos_of_ne_zero hn)
      rw [hzero] at hunder
      exact relift_eq_error_iff.2 hunder

theorem requoted_requote (c : Cell) (steps : List QuoteStep) : c.Requoted (c.requote steps) := by
  induction steps generalizing c with
  | nil => exact .refl c
  | cons s steps ih => exact (requoted_after c s).trans (ih _)

theorem depth_requote (ha : c.isAntiform = false) (steps : List QuoteStep) :
    (c.requote steps).quoteDepth = QuoteStep.tally c.quoteDepth steps := by
  induction steps generalizing c with
  | nil => rfl
  | cons s steps ih =>
    have hnext : (s.request.after c).isAntiform = false := by
      rw [(requoted_after c s).isAntiform, ha]
    rw [requote, QuoteStep.tally, ih hnext, depth_after ha]

theorem requote_of_isAntiform (ha : c.isAntiform = true) (steps : List QuoteStep) :
    c.requote steps = c := by
  induction steps with
  | nil => rfl
  | cons s steps ih =>
    have hsame : s.request.after c = c := by
      rw [Request.after, apply_of_isAntiform ha]
      by_cases hn : s.amount = 0
      · rw [if_pos hn]
      · rw [if_neg hn]
    rw [requote, hsame, ih]

/-- Where every step succeeds, the depth has changed by their sum. -/
theorem depth_of_requoteAll {steps : List QuoteStep} (hd : c.requoteAll steps = .ok d) :
    d = c.requote steps ∧ (d.quoteDepth : Int) = c.quoteDepth + QuoteStep.net steps := by
  induction steps generalizing c with
  | nil =>
    cases hd
    exact ⟨rfl, (Int.add_zero _).symm⟩
  | cons s steps ih =>
    rw [requoteAll, List.foldlM_cons] at hd
    obtain ⟨e, he, hd⟩ := bind_eq_ok_iff.1 hd
    obtain ⟨hrun, hdepth⟩ := ih hd
    have hafter : s.request.after c = e := by rw [Request.after, he]
    constructor
    · rw [requote, hafter, hrun]
    · rw [hdepth, (requoted_of_apply he).2, QuoteStep.net, Int.add_assoc]

/-- A row of quoting and unquoting steps, in which a step that fails leaves the cell as it was,
changes nothing but the depth. On a cell that is no antiform the depth goes with a counter from 0 to
126, and the next step gives what the counter gives, a depth or a fault. On an antiform every step
of at least one quote fails. Rows that succeed throughout end in the same cell if their sums are
equal. -/
theorem quotes_counted (c : Cell) (steps : List QuoteStep) :
    c.Requoted (c.requote steps) ∧
    (c.isAntiform = false →
      (c.requote steps).quoteDepth = QuoteStep.tally c.quoteDepth steps ∧
      ∀ s : QuoteStep, (s.request.apply (c.requote steps)).map quoteDepth =
        s.count (QuoteStep.tally c.quoteDepth steps)) ∧
    (c.isAntiform = true → c.requote steps = c ∧
      ∀ s : QuoteStep, s.request.apply c = if s.amount = 0 then .ok c else .error s.refusal) ∧
    (∀ d, c.requoteAll steps = .ok d → d = c.requote steps ∧
      ∀ others e, c.requoteAll others = .ok e → QuoteStep.net others = QuoteStep.net steps →
        e = d) := by
  have hkept := requoted_requote c steps
  refine ⟨hkept, fun ha => ?_, fun ha => ?_, fun d hd => ?_⟩
  · have hdepth := depth_requote ha steps
    refine ⟨hdepth, fun s => ?_⟩
    rw [← hdepth]
    exact depth_of_apply (hkept.isAntiform.trans ha) s
  · exact ⟨requote_of_isAntiform ha steps, apply_of_isAntiform ha⟩
  · obtain ⟨hrun, hdepth⟩ := depth_of_requoteAll hd
    refine ⟨hrun, fun others e he hsum => ?_⟩
    obtain ⟨hrun', hdepth'⟩ := depth_of_requoteAll he
    have hsame : (e.quoteDepth : Int) = d.quoteDepth := by rw [hdepth, hdepth', hsum]
    rw [hrun'] at hsame ⊢
    rw [hrun] at hsame ⊢
    exact (requoted_requote c others).eq_of_depth hkept (Int.ofNat_inj.1 hsame)

/-- A quasiform that is quoted to the top and all the way down again, with a step too many at
either end, and an antiform. -/
theorem quotes_counted_quasi :
    let c := { Cell.blank with lift := .quasi }
    let twice := { Cell.blank with lift := .quoted ⟨2, by decide, by decide⟩ true }
    let steps := [.quote 126, .quote 255, .unquote 126, .unquote 1, .quote 2]
    c.isAntiform = false ∧ (c.requote steps).quoteDepth = 2 ∧
    ((QuoteStep.quote 125).request.apply (c.requote steps)).map quoteDepth =
      .error (.quoteOverflow 127) ∧
    Cell.trash.isAntiform = true ∧
    (QuoteStep.unquote 3).request.apply Cell.trash = .error (.quoteUnderflow 3 0) ∧
    c.requoteAll [.quote 126, .unquote 124] = .ok twice ∧
    c.requoteAll [.quote 2] = .ok twice := by
  intro c twice steps
  obtain ⟨hdepth, hnext⟩ := (quotes_counted c steps).2.1 rfl
  obtain ⟨_, hanti⟩ := (quotes_counted .trash []).2.2.1 rfl
  have hlong : c.requoteAll [.quote 126, .unquote 124] = .ok twice := by decide
  have hshort : c.requoteAll [.quote 2] = .ok (c.requote [.quote 2]) := by decide
  have hsame := ((quotes_counted c [.quote 126, .unquote 124]).2.2.2 twice hlong).2 _ _ hshort
    (by decide)
  exact ⟨rfl, hdepth.trans (by decide), (hnext _).trans (by decide), rfl, hanti _, hlong,
    hsame ▸ hshort⟩

end Cell

end CellHeap
