import CellHeap.Fault

/-!
# Character positions in UTF-8 text

Positions in text count characters, storage counts bytes. `byteOffset` maps the
one to the other, and `cutAt` divides text at a byte offset without ever
dividing a character.
-/

set_option autoImplicit false

namespace CellHeap.Text

/-- The bytes that characters take. -/
def byteSize : List Char → Nat
  | [] => 0
  | c :: cs => c.utf8Size + byteSize cs

theorem utf8ByteSize_ofList (cs : List Char) : (String.ofList cs).utf8ByteSize = byteSize cs := by
  induction cs with
  | nil => rfl
  | cons c cs ih =>
    rw [String.ofList_cons, String.utf8ByteSize_append, String.utf8ByteSize_singleton, ih, byteSize]

/-- The byte at which each character starts, the first one at `off`. -/
def starts (off : Nat) : List Char → List Nat
  | [] => []
  | c :: cs => off :: starts (off + c.utf8Size) cs

theorem length_starts (off : Nat) (cs : List Char) : (starts off cs).length = cs.length := by
  induction cs generalizing off with
  | nil => rfl
  | cons c cs ih => rw [starts, List.length_cons, List.length_cons, ih]

theorem starts_of_le {off i : Nat} {cs : List Char} (hi : cs.length ≤ i) :
    (starts off cs)[i]? = none :=
  List.getElem?_eq_none (by rw [length_starts]; exact hi)

theorem starts_of_lt {off i : Nat} {cs : List Char} (hi : i < cs.length) :
    (starts off cs)[i]? = some (off + byteSize (cs.take i)) := by
  induction cs generalizing off i with
  | nil => exact absurd hi (Nat.not_lt_zero i)
  | cons c cs ih =>
    cases i with
    | zero => rfl
    | succ i =>
      rw [starts, List.getElem?_cons_succ, ih (Nat.lt_of_succ_lt_succ hi), List.take_succ_cons,
        byteSize, Nat.add_assoc]

/-- The byte at which character `i` starts. The end of the text is a position as well, although
no character starts there. -/
def byteOffset (s : String) (i : Nat) : Except Fault Nat :=
  if i = 0 then .ok 0
  else
    match (starts 0 s.toList)[i]? with
    | some off => .ok off
    | none => if i = s.length then .ok s.utf8ByteSize else .error (.outOfRange i s.length)

theorem byteOffset_of_le {s : String} {i : Nat} (hi : i ≤ s.length) :
    byteOffset s i = .ok (byteSize (s.toList.take i)) := by
  rw [← String.length_toList] at hi
  unfold byteOffset
  by_cases hzero : i = 0
  · simp [hzero, byteSize]
  rw [if_neg hzero]
  rcases Nat.lt_or_eq_of_le hi with hinside | rfl
  · rw [starts_of_lt hinside, Nat.zero_add]
  · -- The scan has run out of characters, and all their bytes stand before the end.
    have hsize : s.utf8ByteSize = byteSize s.toList := by
      rw [← utf8ByteSize_ofList, String.ofList_toList]
    rw [starts_of_le (Nat.le_refl _), List.take_length, ← hsize]
    exact if_pos String.length_toList

theorem byteOffset_of_lt {s : String} {i : Nat} (hi : s.length < i) :
    byteOffset s i = .error (.outOfRange i s.length) := by
  have hpast : s.toList.length ≤ i := by rw [String.length_toList]; omega
  rw [byteOffset, starts_of_le hpast, if_neg (by omega)]
  exact if_neg (by omega)

/-- Divides characters after `n` bytes; a character that would be divided stays on the right. -/
def cutAt : Nat → List Char → List Char × List Char
  | _, [] => ([], [])
  | n, c :: cs =>
    if c.utf8Size ≤ n then
      let (l, r) := cutAt (n - c.utf8Size) cs
      (c :: l, r)
    else ([], c :: cs)

theorem cutAt_byteSize_take (i : Nat) (cs : List Char) :
    cutAt (byteSize (cs.take i)) cs = (cs.take i, cs.drop i) := by
  induction cs generalizing i with
  | nil => simp [cutAt]
  | cons c cs ih =>
    cases i with
    | zero =>
      have hc := Char.utf8Size_pos c
      simp [byteSize, cutAt, show ¬ c.utf8Size ≤ 0 by omega]
    | succ i => simp [byteSize, cutAt, ih]

/-- The text before and after character position `i`. -/
def splitAt (s : String) (i : Nat) : Except Fault (String × String) := do
  let off ← byteOffset s i
  let (l, r) := cutAt off s.toList
  return (String.ofList l, String.ofList r)

theorem splitAt_of_le {s : String} {i : Nat} (h : i ≤ s.length) :
    splitAt s i = .ok (String.ofList (s.toList.take i), String.ofList (s.toList.drop i)) := by
  simp [splitAt, byteOffset_of_le h, cutAt_byteSize_take, bind, Except.bind, pure, Except.pure]

end CellHeap.Text
