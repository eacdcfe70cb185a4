import CellHeap.Proofs.Session.Header

/-!
# Requests on a header

A header operation asks for a change: so many quotes more or fewer, another form,
another sigil or binding. What it asks for is written down on a header without
checks, whose depth may leave its range and whose parts need not go together. An
operation that succeeds makes just that change. On a coherent cell it succeeds if
the header asked for is valid, apart from two requests that are refused although
it is.
-/

set_option autoImplicit false

namespace CellHeap

inductive Form where
  | anti | plain | quasi
  deriving DecidableEq

structure Header where
  kind : Kind
  form : Form
  depth : Int
  sigil : Option Sigil
  binding : Option Binding
  deriving DecidableEq

structure Header.Valid (x : Header) : Prop where
  form : x.form ≠ .plain → x.kind.antiform?.isSome = true ∧ x.sigil = none
  sigil : x.sigil.isSome = true → x.kind.isSigilable = true
  binding : x.binding.isSome = true → x.kind.isBindable = true
  quotes : x.depth ≠ 0 → x.form ≠ .anti ∧ 1 ≤ x.depth ∧ x.depth ≤ 126

namespace Lift

def form : Lift → Form
  | .anti => .anti
  | .plain | .quoted _ false => .plain
  | .quasi | .quoted _ true => .quasi

variable {l l' : Lift} {n : Nat}

theorem form_base (l : Lift) : l.base.form = l.form := by
  cases l with
  | quoted d q => cases q <;> rfl
  | _ => rfl

theorem form_eq_plain_iff : l.form = .plain ↔ l.base = .plain := by
  cases l with
  | quoted d q => cases q <;> simp [form, base]
  | _ => simp [form, base]

theorem form_eq_anti_iff : l.form = .anti ↔ l = .anti := by
  cases l with
  | quoted d q => cases q <;> simp [form]
  | _ => simp [form]

theorem form_eq_of_base (h : l'.base = l.base) : l'.form = l.form := by
  rw [← form_base l', h, form_base]

theorem depth_of_form_anti (h : l.form = .anti) : l.depth = 0 := by
  rw [form_eq_anti_iff.1 h]
  rfl

theorem eq_quasi (hf : l.form = .quasi) (hz : l.depth = 0) : l = .quasi := by
  cases l with
  | quasi => rfl
  | quoted d q => exact absurd hz (Nat.ne_of_gt d.pos)
  | anti | plain => cases hf

theorem depth_base (l : Lift) : l.base.depth = 0 := by
  cases l with
  | quoted d q => cases q <;> rfl
  | _ => rfl

theorem quotedOver_eq_ok_of_le {q : Bool} (hpos : 0 < n) (hle : n ≤ maxQuoteDepth) :
    ∃ l', quotedOver q n = .ok l' := by
  unfold quotedOver QuoteDepth.ofNat?
  rw [dif_pos ⟨hpos, hle⟩]
  exact ⟨_, rfl⟩

theorem depth_quotify (h : l.quotify n = .ok l') : l'.depth = l.depth + n := by
  unfold quotify at h
  by_cases hn : n = 0
  · rw [if_pos hn] at h
    cases h
    rw [hn, Nat.add_zero]
  · rw [if_neg hn] at h
    cases l with
    | anti => cases h
    | plain | quasi =>
      obtain ⟨d, rfl, hd⟩ := quotedOver_eq_ok h
      rw [depth_quoted, hd]
      exact (Nat.zero_add n).symm
    | quoted d q =>
      obtain ⟨d', rfl, hd⟩ := quotedOver_eq_ok h
      exact hd

theorem quotify_eq_ok_of_le (hanti : l.depth + n ≠ 0 → l.form ≠ .anti)
    (hle : l.depth + n ≤ maxQuoteDepth) : ∃ l', l.quotify n = .ok l' := by
  unfold quotify
  by_cases hn : n = 0
  · exact ⟨l, if_pos hn⟩
  · rw [if_neg hn]
    have hpos := Nat.pos_of_ne_zero hn
    cases l with
    | anti => exact absurd rfl (hanti (by omega))
    | plain | quasi => exact quotedOver_eq_ok_of_le hpos (by simpa using hle)
    | quoted d q => exact quotedOver_eq_ok_of_le (by omega) hle

theorem unquotify_eq_ok_iff : (∃ l', l.unquotify n = .ok l') ↔ n ≤ l.depth := by
  unfold unquotify
  by_cases hn : n = 0
  · simp [hn]
  rw [if_neg hn]
  by_cases hd : l.depth < n
  · rw [if_pos hd]
    constructor
    · rintro ⟨_, h⟩
      cases h
    · omega
  · rw [if_neg hd]
    refine ⟨fun _ => Nat.le_of_not_lt hd, fun _ => ?_⟩
    cases QuoteDepth.ofNat? (l.depth - n) with
    | some d => exact ⟨_, rfl⟩
    | none => exact ⟨_, rfl⟩

theorem depth_unquotify (h : l.unquotify n = .ok l') : l'.depth + n = l.depth := by
  have hle : n ≤ l.depth := unquotify_eq_ok_iff.1 ⟨l', h⟩
  have hmax := l.depth_le
  unfold unquotify at h
  by_cases hn : n = 0
  · rw [if_pos hn] at h
    cases h
    rw [hn, Nat.add_zero]
  rw [if_neg hn, if_neg (Nat.not_lt.2 hle)] at h
  cases hq : QuoteDepth.ofNat? (l.depth - n) with
  | some d =>
    rw [hq] at h
    cases h
    rw [depth_quoted, QuoteDepth.level_of_ofNat? hq]
    omega
  | none =>
    -- no quote is left, for the depth is small enough
    rw [hq] at h
    cases h
    have hzero : ¬ (0 < l.depth - n ∧ l.depth - n ≤ maxQuoteDepth) := by
      intro hin
      simp [QuoteDepth.ofNat?, hin] at hq
    rw [depth_base]
    omega

end Lift

def Cell.header (c : Cell) : Header :=
  ⟨c.kind, c.lift.form, c.lift.depth, c.sigil, c.binding⟩

/-- The type of a lift sees to the quotes, coherence to the rest. -/
theorem Cell.header_valid_iff {c : Cell} : c.header.Valid ↔ c.Coherent := by
  constructor
  · intro hv
    refine ⟨fun hb => hv.form ?_, hv.sigil, hv.binding⟩
    exact fun hp => hb (Lift.form_eq_plain_iff.1 hp)
  · intro hc
    refine ⟨fun hf => hc.form ?_, hc.sigil, hc.binding, fun hd => ⟨?_, ?_, ?_⟩⟩
    · exact fun hb => hf (Lift.form_eq_plain_iff.2 hb)
    · intro ha
      apply hd
      show (c.lift.depth : Int) = 0
      rw [Lift.depth_of_form_anti ha]
      rfl
    · have hpos : (c.lift.depth : Int) ≠ 0 := hd
      show (1 : Int) ≤ c.lift.depth
      omega
    · have hle : c.lift.depth ≤ 126 := c.lift.depth_le
      show (c.lift.depth : Int) ≤ 126
      omega

namespace Cell

variable {c d : Cell} {n : Nat}

theorem isQuoted_eq_false_iff : c.isQuoted = false ↔ c.lift.depth = 0 := by
  rw [isQuoted, quoteDepth, decide_eq_false_iff_not, Nat.not_lt, Nat.le_zero]

theorem header_of_quotify (hd : c.quotify n = .ok d) :
    d.header = { c.header with depth := c.header.depth + n } := by
  obtain ⟨l, hl, hd⟩ := bind_eq_ok_iff.1 hd
  cases hd
  simp [header, Lift.form_eq_of_base (Lift.base_quotify hl), Lift.depth_quotify hl]

theorem header_of_unquotify (hd : c.unquotify n = .ok d) :
    d.header = { c.header with depth := c.header.depth - n } := by
  obtain ⟨l, hl, hd⟩ := bind_eq_ok_iff.1 hd
  cases hd
  simp [header, Lift.form_eq_of_base (Lift.base_unquotify hl), ← Lift.depth_unquotify hl]

theorem quotify_of_valid (hv : Header.Valid { c.header with depth := c.header.depth + n }) :
    ∃ d, c.quotify n = .ok d := by
  have hdepth : (c.lift.depth : Int) + n ≠ 0 → c.lift.form ≠ .anti ∧
      1 ≤ (c.lift.depth : Int) + n ∧ (c.lift.depth : Int) + n ≤ 126 := hv.quotes
  have hle : c.lift.depth + n ≤ maxQuoteDepth := by
    show c.lift.depth + n ≤ 126
    omega
  obtain ⟨l, hl⟩ := Lift.quotify_eq_ok_of_le (fun hz => (hdepth (by omega)).1) hle
  exact ⟨_, bind_eq_ok_iff.2 ⟨l, hl, rfl⟩⟩

theorem unquotify_of_valid (hv : Header.Valid { c.header with depth := c.header.depth - n }) :
    ∃ d, c.unquotify n = .ok d := by
  have hdepth : (c.lift.depth : Int) - n ≠ 0 → c.lift.form ≠ .anti ∧
      1 ≤ (c.lift.depth : Int) - n ∧ (c.lift.depth : Int) - n ≤ 126 := hv.quotes
  obtain ⟨l, hl⟩ := Lift.unquotify_eq_ok_iff.2 (show n ≤ c.lift.depth by omega)
  exact ⟨_, bind_eq_ok_iff.2 ⟨l, hl, rfl⟩⟩

/-- No valid header is a quoted antiform. -/
theorem not_quoted_of_valid (hv : Header.Valid { c.header with form := .anti }) :
    c.isQuoted = false := by
  have hdepth : (c.lift.depth : Int) = 0 := by
    by_contra hz
    exact (hv.quotes hz).1 rfl
  exact isQuoted_eq_false_iff.2 (Int.ofNat_eq_zero.1 hdepth)

theorem header_of_toAntiform {accept : Accept} (hd : c.toAntiform accept = .ok d) :
    d.header = { c.header with form := .anti } := by
  obtain ⟨hq, _, _, _, rfl⟩ := toAntiform_eq_ok_iff.1 hd
  simp [header, Lift.form, isQuoted_eq_false_iff.1 hq]

end Cell

inductive Request where
  | quotify (n : Nat)
  | unquotify (n : Nat)
  | toAntiform (accept : Accept)
  | toQuasiform
  | toMeta
  | ofMeta
  | setSigil (s : Option Sigil)
  | setBinding (b : Option Binding)
  | setConst (on : Bool)
  | setNewline (on : Bool)
  | setLocked (on : Bool)

namespace Request

def apply : Request → Cell → Except Fault Cell
  | quotify n, c => c.quotify n
  | unquotify n, c => c.unquotify n
  | toAntiform accept, c => c.toAntiform accept
  | toQuasiform, c => c.toQuasiform
  | toMeta, c => c.toMeta
  | ofMeta, c => c.ofMeta
  | setSigil s, c => c.setSigil s
  | setBinding b, c => c.setBinding b
  | setConst on, c => .ok (c.setConst on)
  | setNewline on, c => .ok (c.setNewline on)
  | setLocked on, c => .ok (c.setLocked on)

def after (r : Request) (c : Cell) : Cell :=
  match r.apply c with
  | .ok d => d
  | .error _ => c

def target : Request → Header → Header
  | quotify n, x => { x with depth := x.depth + n }
  | unquotify n, x => { x with depth := x.depth - n }
  | toAntiform _, x => { x with form := .anti }
  | toQuasiform, x => { x with form := .quasi }
  | toMeta, x =>
    if x.form = .anti then { x with form := .quasi } else { x with depth := x.depth + 1 }
  | ofMeta, x =>
    if x.form = .quasi ∧ x.depth = 0 then { x with form := .anti }
    else { x with depth := x.depth - 1 }
  | setSigil s, x => { x with sigil := s }
  | setBinding b, x => { x with binding := b }
  | setConst _, x | setNewline _, x | setLocked _, x => x

/-- Requests refused although the header asked for is valid: a quasiform of a quoted cell, and an
unstable antiform where only a stable one is accepted. -/
def Barred : Request → Cell → Prop
  | toAntiform accept, c => accept = .stable ∧ c.kind.antiform?.any (!·.isStable) = true
  | toQuasiform, c => c.isQuoted = true
  | _, _ => False

variable {r : Request} {c d : Cell}

theorem reworked (h : Heap) (hd : r.apply c = .ok d) : c.Reworked h d := by
  cases r with
  | quotify n => exact .quotify hd
  | unquotify n => exact .unquotify hd
  | toAntiform accept => exact .toAntiform hd
  | toQuasiform => exact .toQuasiform hd
  | toMeta => exact .toMeta hd
  | ofMeta => exact .ofMeta hd
  | setSigil s => exact .setSigil hd
  | setBinding b => exact .setBinding hd
  | setConst on =>
    cases hd
    exact .setConst on
  | setNewline on =>
    cases hd
    exact .setNewline on
  | setLocked on =>
    cases hd
    exact .setLocked on

/-- An operation that succeeds makes the change that it was asked for. -/
theorem apply_header (hd : r.apply c = .ok d) : d.header = r.target c.header := by
  cases r with
  | quotify n => exact Cell.header_of_quotify hd
  | unquotify n => exact Cell.header_of_unquotify hd
  | toAntiform accept => exact Cell.header_of_toAntiform hd
  | toQuasiform =>
    obtain ⟨hq, _, _, rfl⟩ := Cell.toQuasiform_eq_ok_iff.1 hd
    simp [Cell.header, target, Lift.form, Cell.isQuoted_eq_false_iff.1 hq]
  | toMeta =>
    simp only [apply, Cell.toMeta] at hd
    cases ha : c.isAntiform with
    | true =>
      rw [ha] at hd
      cases hd
      have hl : c.lift = .anti := beq_iff_eq.1 ha
      simp [Cell.header, target, hl, Lift.form]
    | false =>
      rw [ha] at hd
      have hform : c.header.form ≠ .anti := by
        intro hf
        rw [Cell.isAntiform, Lift.form_eq_anti_iff.1 hf] at ha
        cases ha
      simp only [target]
      rw [if_neg hform]
      exact Cell.header_of_quotify hd
  | ofMeta =>
    simp only [apply, Cell.ofMeta] at hd
    cases hq : c.isQuasiform with
    | true =>
      rw [hq] at hd
      have hl : c.lift = .quasi := beq_iff_eq.1 hq
      simp only [target]
      rw [if_pos (by simp [Cell.header, hl, Lift.form])]
      exact Cell.header_of_toAntiform hd
    | false =>
      rw [hq] at hd
      simp only [target]
      rw [if_neg]
      · exact Cell.header_of_unquotify hd
      · rintro ⟨hf, hz⟩
        rw [Cell.isQuasiform, Lift.eq_quasi hf (by simpa [Cell.header] using hz)] at hq
        cases hq
  | setSigil s =>
    obtain ⟨_, rfl⟩ := Cell.setSigil_eq_ok_iff.1 hd
    rfl
  | setBinding b =>
    rw [Cell.setBinding_eq_ok hd]
    rfl
  | setConst | setNewline | setLocked =>
    cases hd
    rfl

theorem not_barred_of_apply (hd : r.apply c = .ok d) : ¬ r.Barred c := by
  cases r with
  | toAntiform accept =>
    obtain ⟨_, _, _, hs, _⟩ := Cell.toAntiform_eq_ok_iff.1 hd
    exact hs
  | toQuasiform =>
    obtain ⟨hq, _⟩ := Cell.toQuasiform_eq_ok_iff.1 hd
    simp [Barred, hq]
  | _ => exact id

theorem apply_of_valid (hc : c.Coherent) (hv : (r.target c.header).Valid) (hb : ¬ r.Barred c) :
    ∃ d, r.apply c = .ok d := by
  cases r with
  | quotify n => exact Cell.quotify_of_valid hv
  | unquotify n => exact Cell.unquotify_of_valid hv
  | toAntiform accept =>
    obtain ⟨hk, hs⟩ := hv.form fun h => Form.noConfusion h
    exact ⟨_, Cell.toAntiform_eq_ok_iff.2 ⟨Cell.not_quoted_of_valid hv, hk, hs, hb, rfl⟩⟩
  | toQuasiform =>
    obtain ⟨hk, hs⟩ := hv.form fun h => Form.noConfusion h
    exact ⟨_, Cell.toQuasiform_eq_ok_iff.2 ⟨Bool.eq_false_iff.2 hb, hk, hs, rfl⟩⟩
  | toMeta =>
    simp only [apply, Cell.toMeta]
    cases ha : c.isAntiform with
    | true => exact ⟨_, rfl⟩
    | false =>
      have hform : c.header.form ≠ .anti := by
        intro hf
        rw [Cell.isAntiform, Lift.form_eq_anti_iff.1 hf] at ha
        cases ha
      simp only [target, if_neg hform] at hv
      exact Cell.quotify_of_valid hv
  | ofMeta =>
    simp only [apply, Cell.ofMeta]
    cases hq : c.isQuasiform with
    | true =>
      have hl : c.lift = .quasi := beq_iff_eq.1 hq
      obtain ⟨hk, hs⟩ := hc.form (by rw [hl]; decide)
      exact ⟨_, Cell.toAntiform_any c hk hs (by simp [Cell.isQuoted, Cell.quoteDepth, hl])⟩
    | false =>
      have hnot : ¬ (c.header.form = .quasi ∧ c.header.depth = 0) := by
        rintro ⟨hf, hz⟩
        rw [Cell.isQuasiform, Lift.eq_quasi hf (by simpa [Cell.header] using hz)] at hq
        cases hq
      simp only [target, if_neg hnot] at hv
      exact Cell.unquotify_of_valid hv
  | setSigil s =>
    refine ⟨_, Cell.setSigil_eq_ok_iff.2 ⟨fun hs => ⟨hv.sigil hs, ?_⟩, rfl⟩⟩
    by_contra hbase
    have hnone : s = none := (hv.form fun hp => hbase (Lift.form_eq_plain_iff.1 hp)).2
    rw [hnone] at hs
    cases hs
  | setBinding b => exact ⟨_, Cell.setBinding_eq_ok_iff.2 ⟨hv.binding, rfl⟩⟩
  | setConst | setNewline | setLocked => exact ⟨_, rfl⟩

/-- A request on a coherent cell is granted if the header asked for is valid and the request is
not barred, and only then. -/
theorem apply_eq_ok_iff (hc : c.Coherent) :
    (∃ d, r.apply c = .ok d) ↔ (r.target c.header).Valid ∧ ¬ r.Barred c := by
  constructor
  · rintro ⟨d, hd⟩
    rw [← apply_header hd]
    exact ⟨Cell.header_valid_iff.2 (hc.reworked (reworked (.new {}) hd)), not_barred_of_apply hd⟩
  · rintro ⟨hv, hb⟩
    exact apply_of_valid hc hv hb

end Request

end CellHeap
