import CellHeap.Heap.Word
import CellHeap.Proofs.Sequence.Plan

/-!
# The language of sequences

The rules of the grammar are stated one by one, each with what is objected to an
element that breaks it, in the order in which they are looked at. Two more rules
are about the list as a whole. A list that keeps all rules makes a sequence under
every compression; any other is refused for the first rule that is broken, at the
first element that breaks one.
-/

set_option autoImplicit false

namespace CellHeap.Sequence

def sequenceKinds : List Kind := [.tuple, .chain, .path]

def elementKinds : List Kind :=
  [.blank, .word, .integer, .rune, .text, .tag, .block, .group, .fence, .tuple, .chain, .path]

def nestings : List (Kind × Kind) := [(.path, .chain), (.path, .tuple), (.chain, .tuple)]

inductive Rule where
  | plain | kind | nesting | spelling | ends

namespace Rule

def Holds (h : Heap) (outer : Kind) (i n : Nat) (c : Cell) : Rule → Prop
  | plain => c.lift = .plain ∧ c.sigil = none
  | kind => c.kind ∈ elementKinds
  | nesting => c.kind ∈ sequenceKinds → (outer, c.kind) ∈ nestings
  | spelling => c.kind = .word → ∀ x ∈ (Word.spelling h c).toList, x ∉ ['/', ':', '.']
  | ends => c.kind = .blank → i = 0 ∨ i + 1 = n

instance decidableHolds (h : Heap) (outer : Kind) (i n : Nat) (c : Cell) :
    (r : Rule) → Decidable (r.Holds h outer i n c)
  | plain => inferInstanceAs (Decidable (_ ∧ _))
  | kind => inferInstanceAs (Decidable (_ ∈ _))
  | nesting => inferInstanceAs (Decidable (_ → _))
  | spelling => inferInstanceAs (Decidable (_ → _))
  | ends => inferInstanceAs (Decidable (_ → _))

def all : List Rule := [plain, kind, nesting, spelling, ends]

theorem mem_all (r : Rule) : r ∈ all := by
  cases r <;> simp [all]

def objection (c : Cell) : Rule → Objection
  | plain => .notPlain
  | kind => .kind c.kind
  | nesting => .nesting c.kind
  | spelling => .illegalSpelling
  | ends => .interiorBlank

def First (h : Heap) (outer : Kind) (i n : Nat) (c : Cell) (r : Rule) : Prop :=
  ¬ r.Holds h outer i n c ∧
    ∃ earlier later, all = earlier ++ r :: later ∧ ∀ q ∈ earlier, q.Holds h outer i n c

end Rule

def AllHold (h : Heap) (k : Kind) (es : List Cell) : Prop :=
  ∀ i c, es[i]? = some c → ∀ r : Rule, r.Holds h k i es.length c

def BlankEnds (es : List Cell) : Prop :=
  es.head?.map Cell.kind = some .blank ∧ es.getLast?.map Cell.kind = some .blank

structure Grammatical (h : Heap) (k : Kind) (es : List Cell) : Prop where
  kind : k ∈ sequenceKinds
  length : 2 ≤ es.length
  elements : AllHold h k es
  ends : ¬ BlankEnds es

inductive Rejects (h : Heap) (k : Kind) (es : List Cell) : Rejection → Prop
  | notSequence (hk : k ∉ sequenceKinds) : Rejects h k es (.notSequence k)
  | tooShort (hk : k ∈ sequenceKinds) (hn : es.length < 2) :
      Rejects h k es (.tooShort es.length)
  | element {i : Nat} {c : Cell} {r : Rule} (hk : k ∈ sequenceKinds) (hn : 2 ≤ es.length)
      (hc : es[i]? = some c) (hr : r.First h k i es.length c)
      (hleast : ∀ j < i, ∀ d, es[j]? = some d → ∀ q : Rule, q.Holds h k j es.length d) :
      Rejects h k es (.element i (r.objection c))
  | allBlank {a b : Cell} (hk : k ∈ sequenceKinds) (hes : es = [a, b]) (hall : AllHold h k es)
      (ha : a.kind = .blank) (hb : b.kind = .blank) : Rejects h k es .allBlank
  | blankEnds (hk : k ∈ sequenceKinds) (hn : 2 < es.length) (hall : AllHold h k es)
      (he : BlankEnds es) : Rejects h k es (.element (es.length - 1) .blankAtBothEnds)

section Element

variable {h : Heap} {k : Kind} {i n : Nat} {c : Cell}

theorem isSequence_iff_mem : k.isSequence = true ↔ k ∈ sequenceKinds := by
  cases k <;> simp [Kind.isSequence, sequenceKinds]

theorem mayNest_iff {inner : Kind} : mayNest k inner = true ↔ (k, inner) ∈ nestings := by
  unfold mayNest nestings
  split <;> simp_all

theorem isDelimiter_iff {x : Char} : isDelimiter x = true ↔ x ∈ ['/', ':', '.'] := by
  simp [isDelimiter, or_assoc]

theorem spelling_holds_iff : Rule.spelling.Holds h k i n c ↔
    (c.kind = .word → (Word.spelling h c).toList.any isDelimiter = false) := by
  simp only [Rule.Holds, List.any_eq_false, isDelimiter_iff]

theorem nesting_holds_iff : Rule.nesting.Holds h k i n c ↔
    (c.kind.isSequence = true → mayNest k c.kind = true) := by
  rw [mayNest_iff, isSequence_iff_mem]
  rfl

theorem plain_holds_iff : Rule.plain.Holds h k i n c ↔ c.isBare = true := by
  simp [Rule.Holds, Cell.isBare]

/-- The check of an element takes the rules in their order. -/
theorem objection?_eq_find? : objection? h k i n c =
    (Rule.all.find? fun r => !decide (r.Holds h k i n c)).map (Rule.objection c) := by
  unfold objection? Rule.all
  simp only [List.find?_cons, List.find?_nil, plain_holds_iff, nesting_holds_iff,
    spelling_holds_iff, Word.spelling]
  by_cases hb : c.isBare = true
  · cases hk : c.kind with
    | blank =>
      by_cases hi : i = 0 <;> by_cases hn : i + 1 = n <;>
        simp [hb, Rule.Holds, Rule.objection, hk, elementKinds, Kind.isSequence, hi, hn]
    | word =>
      cases hs : ((c.symbol?.map h.spelling).getD "").toList.any isDelimiter <;>
        simp [hb, Rule.Holds, Rule.objection, hk, elementKinds, Kind.isSequence]
    | tuple | chain | path =>
      cases hm : mayNest k c.kind <;> rw [hk] at hm <;>
        simp [hb, Rule.Holds, Rule.objection, hk, elementKinds, Kind.isSequence, hm]
    | _ => simp [hb, Rule.Holds, Rule.objection, hk, elementKinds, Kind.isSequence]
  · simp [hb, Rule.objection]

theorem objection?_eq_none_iff :
    objection? h k i n c = none ↔ ∀ r : Rule, r.Holds h k i n c := by
  rw [objection?_eq_find?, Option.map_eq_none_iff, List.find?_eq_none]
  simp [Rule.mem_all]

theorem objection?_eq_some_iff {why : Objection} : objection? h k i n c = some why ↔
    ∃ r : Rule, r.First h k i n c ∧ r.objection c = why := by
  simp only [objection?_eq_find?, Option.map_eq_some_iff, List.find?_eq_some_iff_append,
    Rule.First, Bool.not_eq_true', decide_eq_false_iff_not, Bool.not_not, decide_eq_true_eq]

end Element

section Scan

variable {h : Heap} {k : Kind} {n : Nat} {es : List Cell}

theorem firstObjection?_eq_none_iff {i : Nat} : firstObjection? h k n i es = none ↔
    ∀ p c, es[p]? = some c → objection? h k (i + p) n c = none := by
  induction es generalizing i with
  | nil => simp [firstObjection?]
  | cons e es ih =>
    cases ho : objection? h k i n e with
    | some why =>
      simp only [firstObjection?, ho, reduceCtorEq, false_iff]
      intro hall
      have he := hall 0 e rfl
      rw [Nat.add_zero, ho] at he
      cases he
    | none =>
      simp only [firstObjection?, ho, ih]
      constructor
      · intro hall p c hc
        cases p with
        | zero =>
          cases hc
          exact ho
        | succ p =>
          rw [Nat.add_succ, ← Nat.succ_add]
          exact hall p c hc
      · intro hall p c hc
        rw [Nat.succ_add_eq_add_succ]
        exact hall (p + 1) c hc

/-- The scan blames the first element that there is an objection to. -/
theorem firstObjection?_eq_some_iff {i j : Nat} {why : Objection} :
    firstObjection? h k n i es = some (j, why) ↔ ∃ p c, j = i + p ∧ es[p]? = some c ∧
      objection? h k j n c = some why ∧
      ∀ q < p, ∀ d, es[q]? = some d → objection? h k (i + q) n d = none := by
  induction es generalizing i with
  | nil => simp [firstObjection?]
  | cons e es ih =>
    cases ho : objection? h k i n e with
    | some w =>
      simp only [firstObjection?, ho, Option.some.injEq, Prod.mk.injEq]
      constructor
      · rintro ⟨rfl, rfl⟩
        exact ⟨0, e, rfl, rfl, ho, by simp⟩
      · rintro ⟨p, c, rfl, hc, hw, hq⟩
        cases p with
        | zero =>
          cases hc
          rw [Nat.add_zero, ho] at hw
          exact ⟨rfl, Option.some.inj hw⟩
        | succ p =>
          have he := hq 0 (by omega) e rfl
          rw [Nat.add_zero, ho] at he
          cases he
    | none =>
      simp only [firstObjection?, ho, ih]
      constructor
      · rintro ⟨p, c, rfl, hc, hw, hq⟩
        refine ⟨p + 1, c, by omega, hc, hw, ?_⟩
        intro q hlt d hd
        cases q with
        | zero =>
          cases hd
          exact ho
        | succ q =>
          rw [Nat.add_succ, ← Nat.succ_add]
          exact hq q (by omega) d hd
      · rintro ⟨p, c, rfl, hc, hw, hq⟩
        cases p with
        | zero =>
          cases hc
          rw [Nat.add_zero, ho] at hw
          cases hw
        | succ p =>
          refine ⟨p, c, by omega, hc, hw, ?_⟩
          intro q hlt d hd
          rw [Nat.succ_add_eq_add_succ]
          exact hq (q + 1) (by omega) d hd

end Scan

section Verdict

variable {h : Heap} {k : Kind} {es : List Cell} {why : Rejection}

theorem AllHold.scan (hall : AllHold h k es) : firstObjection? h k es.length 0 es = none := by
  rw [firstObjection?_eq_none_iff]
  intro i c hc
  rw [Nat.zero_add]
  exact objection?_eq_none_iff.2 (hall i c hc)

theorem AllHold.isBlank_iff {c : Cell} (hall : AllHold h k es) (hc : c ∈ es) :
    c.isBlank = true ↔ c.kind = .blank := by
  obtain ⟨i, hi⟩ := List.mem_iff_getElem?.1 hc
  have hplain : c.lift = .plain := (hall i c hi .plain).1
  simp [Cell.isBlank, hplain]

theorem AllHold.hasBlankEnds_iff (hall : AllHold h k es) :
    hasBlankEnds es = true ↔ BlankEnds es := by
  cases es with
  | nil => simp [hasBlankEnds, BlankEnds]
  | cons e es =>
    have hfirst := hall.isBlank_iff (c := e) (by simp)
    have hlast := hall.isBlank_iff (List.getLast_mem (List.cons_ne_nil e es))
    simp [hasBlankEnds, BlankEnds, List.getLast?_eq_some_getLast, hfirst, hlast]

/-- Blanks stand only at the ends, so a list of blanks alone has two of them. -/
theorem AllHold.all_isBlank_iff (hall : AllHold h k es) (hn : 2 ≤ es.length) :
    es.all Cell.isBlank = true ↔ ∃ a b, es = [a, b] ∧ a.kind = .blank ∧ b.kind = .blank := by
  rcases es with _ | ⟨a, _ | ⟨b, _ | ⟨c, rest⟩⟩⟩
  case nil | cons.nil => simp at hn
  case cons.cons.nil =>
    have ha := hall.isBlank_iff (c := a) (by simp)
    have hb := hall.isBlank_iff (c := b) (by simp)
    simp [ha, hb]
  case cons.cons.cons =>
    have hb := hall.isBlank_iff (c := b) (by simp)
    have hends : b.kind ≠ .blank := by simpa [Rule.Holds] using hall 1 b rfl .ends
    simp [hb, hends]

theorem validate_of_grammatical (hg : Grammatical h k es) : validate h k es = .ok () := by
  have hk := isSequence_iff_mem.2 hg.kind
  have hshort : ¬ es.length < 2 := Nat.not_lt.2 hg.length
  have hends : ¬ hasBlankEnds es = true := mt hg.elements.hasBlankEnds_iff.1 hg.ends
  have hblank : ¬ es.all Cell.isBlank = true := by
    rw [hg.elements.all_isBlank_iff hg.length]
    rintro ⟨a, b, rfl, ha, hb⟩
    exact hg.ends (by simp [BlankEnds, ha, hb])
  simp only [validate, hk, hshort, hg.elements.scan, hblank, hends, Bool.not_true,
    Bool.false_eq_true, if_false]

theorem validate_of_rejects (hr : Rejects h k es why) : validate h k es = .error why := by
  cases hr with
  | notSequence hk =>
    have hother : ¬ k.isSequence = true := mt isSequence_iff_mem.1 hk
    simp [validate, hother]
  | tooShort hk hn => simp [validate, isSequence_iff_mem.2 hk, hn]
  | @element i c r hk hn hc hr hleast =>
    have hscan : firstObjection? h k es.length 0 es = some (i, r.objection c) := by
      apply firstObjection?_eq_some_iff.2
      refine ⟨i, c, by simp, hc, objection?_eq_some_iff.2 ⟨r, hr, rfl⟩, ?_⟩
      intro j hj d hd
      rw [Nat.zero_add]
      exact objection?_eq_none_iff.2 (hleast j hj d hd)
    simp [validate, isSequence_iff_mem.2 hk, Nat.not_lt.2 hn, hscan]
  | @allBlank a b hk hes hall ha hb =>
    have hn : 2 ≤ es.length := by simp [hes]
    have hblank := (hall.all_isBlank_iff hn).2 ⟨a, b, hes, ha, hb⟩
    simp only [validate, isSequence_iff_mem.2 hk, Nat.not_lt.2 hn, hall.scan, hblank,
      Bool.not_true, Bool.false_eq_true, if_false, if_true]
  | blankEnds hk hn hall he =>
    have hlong : ¬ es.length < 2 := by omega
    have hends := hall.hasBlankEnds_iff.2 he
    have hblank : ¬ es.all Cell.isBlank = true := by
      rw [hall.all_isBlank_iff (by omega)]
      rintro ⟨a, b, rfl, _⟩
      simp at hn
    simp only [validate, isSequence_iff_mem.2 hk, hlong, hall.scan, hblank, hends,
      Bool.not_true, Bool.false_eq_true, if_false, if_true]

/-- The rules leave no list out. -/
theorem grammatical_or_rejects (h : Heap) (k : Kind) (es : List Cell) :
    Grammatical h k es ∨ ∃ why, Rejects h k es why := by
  by_cases hk : k ∈ sequenceKinds
  · by_cases hn : 2 ≤ es.length
    · cases hf : firstObjection? h k es.length 0 es with
      | some blamed =>
        obtain ⟨i, hobj⟩ := blamed
        obtain ⟨p, c, rfl, hc, ho, hleast⟩ := firstObjection?_eq_some_iff.1 hf
        obtain ⟨r, hr, _⟩ := objection?_eq_some_iff.1 ho
        rw [Nat.zero_add] at hr
        refine Or.inr ⟨_, .element hk hn hc hr ?_⟩
        intro j hj d hd
        have hnone := hleast j hj d hd
        rw [Nat.zero_add] at hnone
        exact objection?_eq_none_iff.1 hnone
      | none =>
        have hall : AllHold h k es := by
          intro i c hc
          have hnone := firstObjection?_eq_none_iff.1 hf i c hc
          rw [Nat.zero_add] at hnone
          exact objection?_eq_none_iff.1 hnone
        by_cases he : BlankEnds es
        · rcases Nat.lt_or_eq_of_le hn with hlong | htwo
          · exact Or.inr ⟨_, .blankEnds hk hlong hall he⟩
          · obtain ⟨a, b, rfl⟩ := List.length_eq_two.1 htwo.symm
            simp only [BlankEnds, List.head?_cons, Option.map_some, Option.some.injEq] at he
            exact Or.inr ⟨_, .allBlank hk rfl hall he.1 (by simpa using he.2)⟩
        · exact Or.inl ⟨hk, hn, hall, he⟩
    · exact Or.inr ⟨_, .tooShort hk (by omega)⟩
  · exact Or.inr ⟨_, .notSequence hk⟩

theorem validate_eq_ok_iff : validate h k es = .ok () ↔ Grammatical h k es := by
  constructor
  · intro hv
    rcases grammatical_or_rejects h k es with hg | ⟨why, hr⟩
    · exact hg
    · rw [validate_of_rejects hr] at hv
      cases hv
  · exact validate_of_grammatical

end Verdict

/-- A list makes a sequence just if it is grammatical, whatever the compression. Any other list is
refused for the reason that the rules give, and the heap stays as it was. -/
theorem make_follows_grammar (h : Heap) (k : Kind) (es : List Cell) (m : Compression) :
    ((∃ c h', make k es m h = .ok (.ok c) h') ↔ Grammatical h k es) ∧
    (∀ why, make k es m h = .ok (.error why) h ↔ Rejects h k es why) ∧
    ((∃ c h', make k es m h = .ok (.ok c) h') ∨
      ∃ why, make k es m h = .ok (.error why) h) := by
  have haccept : (∃ c h', make k es m h = .ok (.ok c) h') ↔ Grammatical h k es :=
    make_succeeds_iff.trans validate_eq_ok_iff
  have hrefuse : ∀ why, Rejects h k es why → make k es m h = .ok (.error why) h :=
    fun why hr => make_rejected m (validate_of_rejects hr)
  refine ⟨haccept, fun why => ⟨fun hm => ?_, hrefuse why⟩, ?_⟩
  · rcases grammatical_or_rejects h k es with hg | ⟨why', hr⟩
    · obtain ⟨c, h', hc⟩ := haccept.2 hg
      rw [hc] at hm
      cases hm
    · rw [hrefuse why' hr] at hm
      cases hm
      exact hr
  · rcases grammatical_or_rejects h k es with hg | ⟨why, hr⟩
    · exact Or.inl (haccept.2 hg)
    · exact Or.inr ⟨why, hrefuse why hr⟩

end CellHeap.Sequence
