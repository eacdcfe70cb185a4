import CellHeap.Symbol
import Mathlib.Data.Finset.Card

/-!
# Numbers of spellings

A table of symbols grows at its end only and holds no spelling twice, so spellings
and numbers determine each other: a spelling has the number that its first call was
given, a number keeps its spelling in every later table, and the numbers in use are
those below the number of distinct spellings.
-/

set_option autoImplicit false

namespace CellHeap.SymbolTable

variable {t : SymbolTable} {s s' : String} {x y : Symbol} {calls : List String}

def Assigns (t : SymbolTable) (s : String) (x : Symbol) : Prop :=
  t.spellings[x.number]? = some s

def Distinct (t : SymbolTable) : Prop := t.spellings.toList.Nodup

theorem Assigns.lt_size (hx : t.Assigns s x) : x.number < t.size :=
  (Array.getElem?_eq_some_iff.1 hx).1

theorem Assigns.resolve_eq (hx : t.Assigns s x) : t.resolve x = s := by
  rw [resolve, hx]
  rfl

theorem assigns_resolve (hx : x.number < t.size) : t.Assigns (t.resolve x) x := by
  have hlt : x.number < t.spellings.size := hx
  simp [Assigns, resolve, hlt]

theorem resolve_of_le (hx : t.size ≤ x.number) : t.resolve x = "" := by
  have hle : t.spellings.size ≤ x.number := hx
  simp [resolve, hle]

theorem assigns_of_lookup? (hx : t.lookup? s = some x) : t.Assigns s x := by
  obtain ⟨n, hn, rfl⟩ := Option.map_eq_some_iff.1 hx
  rw [Array.idxOf?_eq_map_finIdxOf?_val] at hn
  obtain ⟨i, hi, rfl⟩ := Option.map_eq_some_iff.1 hn
  obtain ⟨hs, _⟩ := Array.finIdxOf?_eq_some_iff.1 hi
  exact Array.getElem?_eq_some_iff.2 ⟨i.isLt, hs⟩

theorem mem_spellings : s ∈ t.spellings ↔ ∃ x, t.Assigns s x := by
  rw [Array.mem_iff_getElem?]
  constructor
  · rintro ⟨n, hn⟩
    exact ⟨⟨n⟩, hn⟩
  · rintro ⟨x, hx⟩
    exact ⟨x.number, hx⟩

theorem lookup?_eq_none_iff : t.lookup? s = none ↔ ∀ x, ¬ t.Assigns s x := by
  rw [lookup?, Option.map_eq_none_iff, Array.idxOf?_eq_none_iff, mem_spellings, not_exists]

theorem Distinct.eq_of_assigns (hd : t.Distinct) (hx : t.Assigns s x) (hy : t.Assigns s y) :
    x = y := by
  have hsame : t.spellings.toList[x.number]? = t.spellings.toList[y.number]? := by
    rw [Array.getElem?_toList, Array.getElem?_toList, hx, hy]
  have hnumber : x.number = y.number := (List.getElem?_inj hx.lt_size hd).1 hsame
  cases x
  cases y
  cases hnumber
  rfl

theorem Distinct.lookup?_eq_some_iff (hd : t.Distinct) : t.lookup? s = some x ↔ t.Assigns s x := by
  refine ⟨assigns_of_lookup?, fun hx => ?_⟩
  cases hl : t.lookup? s with
  | none => exact absurd hx (lookup?_eq_none_iff.1 hl x)
  | some y => rw [hd.eq_of_assigns hx (assigns_of_lookup? hl)]

/-- A call either finds its spelling or adds it at the end. -/
theorem intern_cases (t : SymbolTable) (s : String) :
    (∃ x, t.Assigns s x ∧ t.intern s = (x, t)) ∨
      (∀ x, ¬ t.Assigns s x) ∧ t.intern s = (⟨t.size⟩, ⟨t.spellings.push s⟩) := by
  unfold intern
  cases hl : t.lookup? s with
  | some x => exact Or.inl ⟨x, assigns_of_lookup? hl, rfl⟩
  | none => exact Or.inr ⟨lookup?_eq_none_iff.1 hl, rfl⟩

theorem assigns_push : Assigns ⟨t.spellings.push s⟩ s' x ↔
    t.Assigns s' x ∨ s' = s ∧ x = ⟨t.size⟩ := by
  obtain ⟨n⟩ := x
  unfold Assigns
  rw [Array.getElem?_push]
  by_cases hn : n = t.spellings.size
  · simp [hn, size, eq_comm]
  · simp [hn, size]

theorem assigns_intern (t : SymbolTable) (s : String) (s' : String) (x : Symbol) :
    (t.intern s).2.Assigns s' x ↔ t.Assigns s' x ∨ s' = s ∧ x = (t.intern s).1 := by
  rcases intern_cases t s with ⟨y, hy, he⟩ | ⟨_, he⟩
  · rw [he]
    refine ⟨Or.inl, ?_⟩
    rintro (hx | ⟨rfl, rfl⟩)
    · exact hx
    · exact hy
  · rw [he]
    exact assigns_push

theorem distinct_intern (hd : t.Distinct) (s : String) : (t.intern s).2.Distinct := by
  rcases intern_cases t s with ⟨_, _, he⟩ | ⟨hnew, he⟩
  · rw [he]
    exact hd
  · rw [he, Distinct, Array.toList_push, List.nodup_append]
    refine ⟨hd, by simp, ?_⟩
    rintro a ha b hb rfl
    obtain rfl := List.mem_singleton.1 hb
    obtain ⟨x, hx⟩ := mem_spellings.1 (Array.mem_toList_iff.1 ha)
    exact hnew x hx

theorem size_intern (t : SymbolTable) (s : String) : t.size ≤ (t.intern s).2.size := by
  rcases intern_cases t s with ⟨_, _, he⟩ | ⟨_, he⟩
  · rw [he]
  · rw [he]
    simp [size]

theorem resolve_intern (hx : x.number < t.size) (s : String) :
    (t.intern s).2.resolve x = t.resolve x :=
  ((assigns_intern t s _ x).2 (Or.inl (assigns_resolve hx))).resolve_eq

def internAll (t : SymbolTable) : List String → SymbolTable
  | [] => t
  | s :: calls => (t.intern s).2.internAll calls

def log (t : SymbolTable) : List String → List (String × Symbol)
  | [] => []
  | s :: calls => (s, (t.intern s).1) :: (t.intern s).2.log calls

theorem log_append (t : SymbolTable) (calls later : List String) :
    t.log (calls ++ later) = t.log calls ++ (t.internAll calls).log later := by
  induction calls generalizing t with
  | nil => rfl
  | cons s calls ih => exact congrArg _ (ih _)

theorem map_fst_log (t : SymbolTable) (calls : List String) :
    (t.log calls).map Prod.fst = calls := by
  induction calls generalizing t with
  | nil => rfl
  | cons s calls ih => exact congrArg _ (ih _)

/-- A run keeps what the table held and adds what its calls were given, and nothing else. -/
theorem assigns_internAll (t : SymbolTable) (calls : List String) (s : String) (x : Symbol) :
    (t.internAll calls).Assigns s x ↔ t.Assigns s x ∨ (s, x) ∈ t.log calls := by
  induction calls generalizing t with
  | nil => simp [internAll, log]
  | cons s' calls ih =>
    rw [internAll, log, ih, assigns_intern, List.mem_cons, Prod.mk.injEq, or_assoc]

theorem distinct_internAll (hd : t.Distinct) (calls : List String) : (t.internAll calls).Distinct := by
  induction calls generalizing t with
  | nil => exact hd
  | cons s calls ih => exact ih (distinct_intern hd s)

section Fresh

theorem distinct_empty : empty.Distinct := List.nodup_nil

theorem not_assigns_empty (s : String) (x : Symbol) : ¬ empty.Assigns s x := by
  simp [Assigns, empty]

theorem assigns_iff_mem_log : (empty.internAll calls).Assigns s x ↔ (s, x) ∈ empty.log calls := by
  rw [assigns_internAll, or_iff_right (not_assigns_empty s x)]

theorem exists_assigns_iff : (∃ x, (empty.internAll calls).Assigns s x) ↔ s ∈ calls := by
  conv_rhs => rw [← map_fst_log empty calls]
  simp only [assigns_iff_mem_log, List.mem_map, Prod.exists, exists_and_right, exists_eq_right]

/-- The table has a number for each distinct spelling. -/
theorem size_internAll (calls : List String) :
    (empty.internAll calls).size = calls.toFinset.card := by
  have hmem : (empty.internAll calls).spellings.toList.toFinset = calls.toFinset := by
    ext s
    rw [List.mem_toFinset, List.mem_toFinset, Array.mem_toList_iff, mem_spellings,
      exists_assigns_iff]
  rw [← hmem, List.toFinset_card_of_nodup (distinct_internAll distinct_empty calls), size,
    Array.length_toList]

/-- A spelling that is new takes the next number. -/
theorem mem_log_of_first {before after : List String} (hs : s ∉ before) :
    (s, ⟨before.toFinset.card⟩) ∈ empty.log (before ++ s :: after) := by
  have hnext : ((empty.internAll before).intern s).1 = ⟨before.toFinset.card⟩ := by
    rcases intern_cases (empty.internAll before) s with ⟨x, hx, _⟩ | ⟨_, he⟩
    · exact absurd (exists_assigns_iff.1 ⟨x, hx⟩) hs
    · rw [he, size_internAll]
  rw [log_append, log, hnext]
  exact List.mem_append_right _ List.mem_cons_self

end Fresh

/-- Calls on a fresh table give the same symbol just for equal spellings and number them from zero
in the order of their first appearance, without a gap. A look-up finds exactly the spellings that
were called for, under the symbols that the calls gave. These symbols spell the same in every later
table, and a number that is not given yet spells nothing. -/
theorem interning_bijective (calls : List String) :
    let t : SymbolTable := internAll empty calls
    let given : List (String × Symbol) := log empty calls
    given.map Prod.fst = calls ∧
    (∀ p ∈ given, ∀ q ∈ given, p.2 = q.2 ↔ p.1 = q.1) ∧
    (∀ before s after, calls = before ++ s :: after → s ∉ before →
      (s, ⟨before.toFinset.card⟩) ∈ given) ∧
    t.size = calls.toFinset.card ∧
    (∀ n, (∃ s, (s, ⟨n⟩) ∈ given) ↔ n < t.size) ∧
    (∀ s x, t.lookup? s = some x ↔ (s, x) ∈ given) ∧
    (∀ s, t.lookup? s = none ↔ s ∉ calls) ∧
    (∀ later, ∀ p ∈ given, (t.internAll later).resolve p.2 = p.1) ∧
    (∀ n, t.size ≤ n → t.resolve ⟨n⟩ = "") := by
  intro t given
  have hd : t.Distinct := distinct_internAll distinct_empty calls
  have hgiven : ∀ {s x}, (s, x) ∈ given ↔ t.Assigns s x := assigns_iff_mem_log.symm
  refine ⟨map_fst_log empty calls, ?_, ?_, size_internAll calls, ?_, ?_, ?_, ?_, ?_⟩
  · rintro ⟨s, x⟩ hp ⟨s', y⟩ hq
    rw [hgiven] at hp hq
    constructor
    · rintro rfl
      exact hp.resolve_eq.symm.trans hq.resolve_eq
    · rintro rfl
      exact hd.eq_of_assigns hp hq
  · intro before s after hcalls hs
    subst hcalls
    exact mem_log_of_first hs
  · intro n
    simp only [hgiven]
    exact ⟨fun ⟨_, hs⟩ => hs.lt_size, fun hn => ⟨_, assigns_resolve hn⟩⟩
  · intro s x
    rw [hgiven, hd.lookup?_eq_some_iff]
  · intro s
    rw [lookup?_eq_none_iff, ← not_exists, exists_assigns_iff]
  · intro later p hp
    exact ((assigns_internAll t later _ _).2 (Or.inl (hgiven.1 hp))).resolve_eq
  · intro n hn
    exact resolve_of_le hn

/-- Two spellings that differ in case only, one of them called for twice. -/
theorem interning_bijective_case :
    let t := empty.internAll ["b", "B", "b"]
    ("b", ⟨0⟩) ∈ empty.log ["b", "B", "b"] ∧ ("B", ⟨1⟩) ∈ empty.log ["b", "B", "b"] ∧
      t.lookup? "b" = some ⟨0⟩ ∧ (t.internAll ["c"]).resolve ⟨1⟩ = "B" ∧ t.resolve ⟨2⟩ = "" := by
  intro t
  obtain ⟨_, _, hfirst, hsize, _, hlookup, _, hresolve, hbeyond⟩ :=
    interning_bijective ["b", "B", "b"]
  have hb := hfirst [] "b" ["B", "b"] rfl (by simp)
  have hB := hfirst ["b"] "B" ["b"] rfl (by simp)
  exact ⟨hb, hB, (hlookup _ _).2 hb, hresolve ["c"] _ hB, hbeyond 2 (Nat.le_of_eq hsize)⟩

end CellHeap.SymbolTable
