import CellHeap.Text.Offset

/-!
# Byte offsets of characters

The offset of a character position is found by a scan over the characters, which may
take one to four bytes each. It counts the bytes of the characters before the position,
so that the text divides there without dividing a character. Every boundary between
characters is the offset of one position, and offsets come in the order of positions.
-/

set_option autoImplicit false

namespace CellHeap.Text

variable {s : String} {i j off : Nat}

/-- Each character takes at least one byte. -/
theorem byteSize_take_lt {cs : List Char} (hij : i < j) (hj : j ≤ cs.length) :
    byteSize (cs.take i) < byteSize (cs.take j) := by
  induction cs generalizing i j with
  | nil =>
    rw [List.length_nil] at hj
    omega
  | cons c cs ih =>
    obtain ⟨j, rfl⟩ : ∃ k, j = k + 1 := ⟨j - 1, by omega⟩
    rw [List.take_succ_cons, byteSize]
    cases i with
    | zero =>
      have hc := c.utf8Size_pos
      rw [List.take_zero, byteSize]
      omega
    | succ i =>
      have hrest := ih (Nat.lt_of_succ_lt_succ hij) (Nat.le_of_succ_le_succ hj)
      rw [List.take_succ_cons, byteSize]
      omega

/-- The byte offset `off` stands between the first `i` characters of `s` and the others. -/
structure Follows (s : String) (i off : Nat) : Prop where
  /-- It counts the bytes of the first characters. -/
  size : off = (String.ofList (s.toList.take i)).utf8ByteSize
  /-- It is a boundary, and the slices of the text on both sides are these characters. -/
  slices : ∃ p : s.Pos, p.offset.byteIdx = off ∧
    (s.sliceTo p).copy = String.ofList (s.toList.take i) ∧
    (s.sliceFrom p).copy = String.ofList (s.toList.drop i)
  /-- Edits and readers divide the text there. -/
  cut : cutAt off s.toList = (s.toList.take i, s.toList.drop i)

theorem follows_byteSize (s : String) (i : Nat) : Follows s i (byteSize (s.toList.take i)) := by
  have hs : s = String.ofList (s.toList.take i) ++ String.ofList (s.toList.drop i) := by
    rw [← String.ofList_append, List.take_append_drop, String.ofList_toList]
  have hsplits := String.Pos.splits_ofEqAppend hs
  refine ⟨(utf8ByteSize_ofList _).symm, ⟨_, ?_, hsplits.copy_sliceTo_eq,
    hsplits.copy_sliceFrom_eq⟩, cutAt_byteSize_take i s.toList⟩
  rw [hsplits.offset_eq_rawEndPos, String.byteIdx_rawEndPos, utf8ByteSize_ofList]

theorem byteOffset_eq_ok_iff :
    byteOffset s i = .ok off ↔ i ≤ s.length ∧ off = byteSize (s.toList.take i) := by
  rcases Nat.lt_or_ge s.length i with hpast | hi
  · rw [byteOffset_of_lt hpast]
    constructor
    · intro h
      cases h
    · rintro ⟨hi, _⟩
      omega
  · rw [byteOffset_of_le hi]
    constructor
    · intro h
      cases h
      exact ⟨hi, rfl⟩
    · rintro ⟨_, rfl⟩
      rfl

/-- The offsets of positions are the boundaries between characters. -/
theorem isValid_iff_byteOffset :
    (String.Pos.Raw.mk off).IsValid s ↔ ∃ i, byteOffset s i = .ok off := by
  rw [String.Pos.Raw.isValid_iff_exists_take_toList]
  constructor
  · rintro ⟨i, hi⟩
    -- A count past the end takes the whole text, as the length does.
    rw [List.take_eq_take_min, String.length_toList, utf8ByteSize_ofList] at hi
    exact ⟨min i s.length, byteOffset_eq_ok_iff.2 ⟨Nat.min_le_right _ _, hi⟩⟩
  · rintro ⟨i, hi⟩
    exact ⟨i, (byteOffset_eq_ok_iff.1 hi).2.trans (utf8ByteSize_ofList _).symm⟩

/-- In every text, a position up to the end has the offset that follows the characters before it,
and a position past the end is refused with the number of characters. Offsets increase strictly
with positions, and they are all the boundaries of the text. -/
theorem byteOffset_exact (s : String) :
    (∀ i, i ≤ s.length → ∃ off, byteOffset s i = .ok off ∧ Follows s i off) ∧
    (∀ i, s.length < i → byteOffset s i = .error (.outOfRange i s.length)) ∧
    (∀ i j, i < j → j ≤ s.length →
      ∃ m n, byteOffset s i = .ok m ∧ byteOffset s j = .ok n ∧ m < n) ∧
    ∀ off, (String.Pos.Raw.mk off).IsValid s ↔ ∃ i, byteOffset s i = .ok off := by
  refine ⟨fun i hi => ⟨_, byteOffset_of_le hi, follows_byteSize s i⟩,
    fun i hi => byteOffset_of_lt hi, fun i j hij hj => ?_, fun off => isValid_iff_byteOffset⟩
  have hlt : byteSize (s.toList.take i) < byteSize (s.toList.take j) :=
    byteSize_take_lt hij (by rw [String.length_toList]; exact hj)
  exact ⟨_, _, byteOffset_of_le (by omega), byteOffset_of_le hj, hlt⟩

/-- Characters of one to four bytes: the start of the last, the end, a position past it and a byte
inside a character. -/
theorem byteOffset_exact_widths :
    let s := "aé€😀"
    s.length = 4 ∧ byteOffset s 3 = .ok 6 ∧ Follows s 3 6 ∧ byteOffset s 4 = .ok 10 ∧
      Follows s 4 10 ∧ byteOffset s 5 = .error (.outOfRange 5 4) ∧
      (∃ m n, byteOffset s 0 = .ok m ∧ byteOffset s 1 = .ok n ∧ m < n) ∧
      ∀ i, byteOffset s i ≠ .ok 4 := by
  intro s
  have hlength : s.length = 4 := by decide
  obtain ⟨hinside, hpast, hgrows, hboundary⟩ := byteOffset_exact s
  obtain ⟨m, hm, hstart⟩ := hinside 3 (by omega)
  obtain ⟨n, hn, hend⟩ := hinside 4 (by omega)
  obtain rfl : m = 6 := hstart.size.trans (by decide +kernel)
  obtain rfl : n = 10 := hend.size.trans (by decide +kernel)
  have hinner : ¬ (String.Pos.Raw.mk 4).IsValid s := by decide +kernel
  refine ⟨hlength, hm, hstart, hn, hend, ?_, hgrows 0 1 (by decide) (by omega),
    fun i hi => hinner ((hboundary 4).2 ⟨i, hi⟩)⟩
  rw [hpast 5 (by omega), hlength]

end CellHeap.Text
