import CellHeap.Fault

/-!
# Lifts

The lift of a cell is its quoting state: antiform, plain, quasiform, or quoted
one to 126 times over a plain or a quasiform base. A quoted antiform does not
exist; it has to become a quasiform first.
-/

set_option autoImplicit false

namespace CellHeap

/-- A number of quotes that a cell can carry. -/
structure QuoteDepth where
  level : Nat
  pos : 0 < level
  le_max : level ≤ maxQuoteDepth
  deriving DecidableEq

namespace QuoteDepth

def one : QuoteDepth := ⟨1, by decide, by decide⟩

def ofNat? (n : Nat) : Option QuoteDepth :=
  if h : 0 < n ∧ n ≤ maxQuoteDepth then some ⟨n, h.1, h.2⟩ else none

def ofNat (n : Nat) : Except Fault QuoteDepth :=
  match ofNat? n with
  | some d => .ok d
  | none => .error (.quoteOverflow n)

@[simp] theorem ofNat?_level (d : QuoteDepth) : ofNat? d.level = some d := by
  simp [ofNat?, d.pos, d.le_max]

theorem level_of_ofNat? {n : Nat} {d : QuoteDepth} (h : ofNat? n = some d) : d.level = n := by
  simp only [ofNat?] at h
  split at h
  · cases h; rfl
  · cases h

end QuoteDepth

inductive Lift where
  | anti
  | plain
  | quasi
  | quoted (depth : QuoteDepth) (quasi : Bool)
  deriving DecidableEq

namespace Lift

instance : Inhabited Lift := ⟨.plain⟩

def depth : Lift → Nat
  | .quoted d _ => d.level
  | _ => 0

/-- The state once all quotes are taken away. -/
def base : Lift → Lift
  | .quoted _ true => .quasi
  | .quoted _ false => .plain
  | l => l

/-- Quoting `n` levels over a base that is plain or a quasiform. -/
def quotedOver (quasi : Bool) (n : Nat) : Except Fault Lift :=
  match QuoteDepth.ofNat? n with
  | some d => .ok (.quoted d quasi)
  | none => .error (.quoteOverflow n)

def quotify (l : Lift) (n : Nat) : Except Fault Lift :=
  if n = 0 then .ok l
  else match l with
    | .anti => .error .antiformNotQuotable
    | .plain => quotedOver false n
    | .quasi => quotedOver true n
    | .quoted d q => quotedOver q (d.level + n)

def unquotify (l : Lift) (n : Nat) : Except Fault Lift :=
  if n = 0 then .ok l
  else if l.depth < n then .error (.quoteUnderflow n l.depth)
  else match QuoteDepth.ofNat? (l.depth - n) with
    | some d => .ok (.quoted d (l.base == .quasi))
    | none => .ok l.base

/-- The code of a lift in one byte: even codes are quasiforms, 0 the antiform. -/
def toByte : Lift → Nat
  | .anti => 0
  | .plain => 1
  | .quasi => 2
  | .quoted d q => 1 + 2 * d.level + q.toNat

def ofByte? : Nat → Option Lift
  | 0 => some .anti
  | 1 => some .plain
  | 2 => some .quasi
  | b => (QuoteDepth.ofNat? ((b - 1) / 2)).map fun d => .quoted d (b % 2 == 0)

def text : Lift → String
  | .anti => "antiform"
  | .plain => "plain"
  | .quasi => "quasiform"
  | .quoted d false => "quoted-" ++ toString d.level
  | .quoted d true => "quoted-" ++ toString d.level ++ "-quasiform"

@[simp] theorem depth_plain : plain.depth = 0 := rfl
@[simp] theorem depth_anti : anti.depth = 0 := rfl
@[simp] theorem depth_quasi : quasi.depth = 0 := rfl
@[simp] theorem depth_quoted (d : QuoteDepth) (q : Bool) : (quoted d q).depth = d.level := rfl

theorem depth_le (l : Lift) : l.depth ≤ maxQuoteDepth := by
  cases l with
  | quoted d q => exact d.le_max
  | _ => exact Nat.zero_le _

end Lift

end CellHeap
