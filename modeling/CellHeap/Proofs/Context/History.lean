import CellHeap.Proofs.Context.Table
import Mathlib.Data.List.Induction

/-!
# Tables and the history that made them

A history is what was done to a context, the latest first; the variables given
when it was made count as added one by one. A table tracks its history if its keys
are those of the history, each at its first occurrence, and if under each key
stands the value given last, protected if protection was last put on. What an
event makes of a slot keeps this up.
-/

set_option autoImplicit false

namespace CellHeap.Context

inductive Event where
  | write (key : Symbol) (value : Cell)
  | writeMeta (key : Symbol) (value : Cell)
  | append (key : Symbol) (value : Cell)
  | lock (key : Symbol) (on : Bool)

namespace Event

def key : Event → Symbol
  | write k _ | writeMeta k _ | append k _ | lock k _ => k

def perform (c : Cell) : Event → HeapM Unit
  | write k v => Context.write c k v
  | writeMeta k v => Context.writeMeta c k v
  | append k v => Context.append c k v
  | lock k on => Context.setLocked c k on

def value? : Event → Option Cell
  | write _ v | append _ v => some v
  | writeMeta _ v => v.toMeta.toOption
  | lock _ _ => none

def locks? : Event → Option Bool
  | lock _ on => some on
  | _ => none

/-- What the event makes of the slot of its key, which only an addition can do without. -/
def result (e : Event) : Option Cell → Option Cell
  | some old =>
    match e with
    | write _ v | append _ v => some (v.copyInto old)
    | writeMeta _ v => v.toMeta.toOption.map (·.copyInto old)
    | lock _ on => some (old.setLocked on)
  | none =>
    match e with
    | append _ v => some (Variable.fresh v)
    | _ => none

end Event

def latest (key : Symbol) (evs : List Event) : Option Cell :=
  (evs.filter (·.key == key)).findSome? Event.value?

def locked (key : Symbol) (evs : List Event) : Bool :=
  ((evs.filter (·.key == key)).findSome? Event.locks?).getD false

def order (evs : List Event) : List Symbol := (evs.reverse.map Event.key).eraseDups

def standing (key : Symbol) (evs : List Event) : Option Cell :=
  (latest key evs).map fun v => v.unflagged.setLocked (locked key evs)

structure Tracks (t : List (Symbol × Cell)) (evs : List Event) : Prop where
  distinct : (t.map (·.1)).Nodup
  order : t.map (·.1) = order evs
  current : ∀ key, t.lookup key = standing key evs

section Tracks

variable {t : List (Symbol × Cell)} {evs : List Event} {e : Event} {key : Symbol} {new : Cell}

theorem tracks_nil : Tracks [] [] := ⟨.nil, rfl, fun _ => rfl⟩

theorem latest_cons_of_ne (hk : e.key ≠ key) : latest key (e :: evs) = latest key evs := by
  simp [latest, beq_eq_false_iff_ne.2 hk]

theorem locked_cons_of_ne (hk : e.key ≠ key) : locked key (e :: evs) = locked key evs := by
  simp [locked, beq_eq_false_iff_ne.2 hk]

theorem standing_cons_of_ne (hk : e.key ≠ key) : standing key (e :: evs) = standing key evs := by
  rw [standing, latest_cons_of_ne hk, locked_cons_of_ne hk, standing]

theorem latest_cons_self (e : Event) (evs : List Event) :
    latest e.key (e :: evs) = e.value?.or (latest e.key evs) := by
  cases hv : e.value? <;> simp [latest, hv]

theorem locked_cons_self (e : Event) (evs : List Event) :
    locked e.key (e :: evs) = e.locks?.getD (locked e.key evs) := by
  cases hl : e.locks? <;> simp [locked, hl]

theorem locked_of_not_mem (hk : key ∉ evs.map Event.key) : locked key evs = false := by
  have hnone : evs.filter (·.key == key) = [] := by
    rw [List.filter_eq_nil_iff]
    intro e he hkey
    exact hk (beq_iff_eq.1 hkey ▸ List.mem_map_of_mem he)
  simp [locked, hnone]

theorem locked_of_no_lock (hl : ∀ e ∈ evs, e.locks? = none) : locked key evs = false := by
  have hnone : (evs.filter (·.key == key)).findSome? Event.locks? = none := by
    rw [List.findSome?_eq_none_iff]
    exact fun e he => hl e (List.mem_filter.1 he).1
  simp [locked, hnone]

theorem mem_order : key ∈ order evs ↔ key ∈ evs.map Event.key := by
  rw [order, List.mem_eraseDups, List.map_reverse, List.mem_reverse]

theorem order_cons (e : Event) (evs : List Event) :
    order (e :: evs) = order evs ++ if e.key ∈ order evs then [] else [e.key] := by
  simp only [order, List.reverse_cons, List.map_append, List.map_singleton, List.mem_eraseDups,
    List.eraseDups_append]
  generalize evs.reverse.map Event.key = ks
  by_cases hk : e.key ∈ ks <;> simp [List.removeAll, List.eraseDups_cons, hk]

theorem Tracks.isLocked {old : Cell} (ht : Tracks t evs) (hk : t.lookup key = some old) :
    old.isLocked = locked key evs := by
  rw [ht.current] at hk
  obtain ⟨_, _, rfl⟩ := Option.map_eq_some_iff.1 hk
  rfl

/-- The slot after an event is the value given last under the protection put on last. -/
theorem Tracks.result (ht : Tracks t evs) (hnew : e.result (t.lookup e.key) = some new) :
    some new = standing e.key (e :: evs) := by
  rw [standing, latest_cons_self, locked_cons_self]
  have hcur := ht.current e.key
  cases hold : t.lookup e.key with
  | none =>
    rw [hold] at hnew
    have hl := locked_of_not_mem (mt mem_order.2 (ht.order ▸ lookup_eq_none_iff.1 hold))
    cases e with
    | append k v =>
      cases hnew
      simp only [Event.key] at hl
      simp only [Event.value?, Event.locks?, Event.key, hl, Option.some_or, Option.getD_none,
        Option.map_some]
      rfl
    | write | writeMeta | lock => cases hnew
  | some old =>
    rw [hold] at hnew hcur
    obtain ⟨v, hlatest, hv⟩ := Option.map_eq_some_iff.1 hcur.symm
    have hl := ht.isLocked hold
    cases e with
    | write k v' | append k v' =>
      cases hnew
      simp only [Event.value?, Event.locks?, Option.some_or, Option.getD_none, Option.map_some]
      rw [Cell.copyInto_eq, hl]
    | writeMeta k v' =>
      obtain ⟨d, hd, hnew⟩ := Option.map_eq_some_iff.1 hnew
      simp only [Event.value?, Event.locks?, hd, Option.some_or, Option.getD_none, Option.map_some]
      rw [← hnew, Cell.copyInto_eq, hl]
    | lock k on =>
      cases hnew
      simp only [Event.value?, Event.locks?, Option.none_or, hlatest, Option.getD_some,
        Option.map_some]
      rw [← hv]
      rfl

/-- A table keeps up with its history if the slot of each event becomes what the event makes
of it. -/
theorem Tracks.step (ht : Tracks t evs) (hnew : e.result (t.lookup e.key) = some new) :
    Tracks (put e.key new t) (e :: evs) := by
  constructor
  · exact nodup_put ht.distinct
  · rw [keys_put, order_cons, ht.order]
  · intro key
    rw [lookup_put]
    by_cases hk : key = e.key
    · rw [if_pos hk, hk]
      exact ht.result hnew
    · rw [if_neg hk, standing_cons_of_ne (Ne.symm hk)]
      exact ht.current key

/-- What was done to other keys since does not matter. -/
theorem standing_append {later : List Event} (hk : key ∉ later.map Event.key) :
    standing key (later ++ evs) = standing key evs := by
  induction later with
  | nil => rfl
  | cons e later ih =>
    rw [List.map_cons, List.mem_cons, not_or] at hk
    rw [List.cons_append, standing_cons_of_ne (Ne.symm hk.1), ih hk.2]

def additions (vars : List (Symbol × Cell)) : List Event :=
  (vars.map fun e => .append e.1 e.2).reverse

theorem keys_additions (vars : List (Symbol × Cell)) :
    (additions vars).map Event.key = (vars.map (·.1)).reverse := by
  rw [additions, List.map_reverse, List.map_map]
  rfl

theorem locked_additions (key : Symbol) (vars : List (Symbol × Cell)) :
    locked key (additions vars) = false := by
  apply locked_of_no_lock
  intro e he
  obtain ⟨_, _, rfl⟩ := List.mem_map.1 (List.mem_reverse.1 he)
  rfl

theorem additions_append (before after : List (Symbol × Cell)) (e : Symbol × Cell) :
    additions (before ++ e :: after) =
      additions after ++ .append e.1 e.2 :: additions before := by
  simp [additions]

theorem order_additions (vars : List (Symbol × Cell)) :
    order (additions vars) = (vars.map (·.1)).eraseDups := by
  rw [order, List.map_reverse, keys_additions, List.reverse_reverse]

theorem standing_additions {before after : List (Symbol × Cell)} (v : Cell)
    (hk : key ∉ after.map (·.1)) :
    standing key (additions (before ++ (key, v) :: after)) = some v.unflagged := by
  have hlatest : latest key (.append key v :: additions before) = some v :=
    latest_cons_self (.append key v) _
  have hlocked : locked key (.append key v :: additions before) = false :=
    (locked_cons_self (.append key v) _).trans (locked_additions key before)
  rw [additions_append, standing_append (by simpa [keys_additions] using hk), standing, hlatest,
    hlocked]
  rfl

theorem standing_of_not_mem (hk : key ∉ evs.map Event.key) : standing key evs = none := by
  have hnil : standing key (evs ++ []) = none := standing_append hk
  rwa [List.append_nil] at hnil

theorem tracks_table (vars : List (Symbol × Cell)) :
    Tracks (table vars) (additions vars) := by
  induction vars using List.reverseRecOn with
  | nil => exact tracks_nil
  | append_singleton vars e ih =>
    rw [table_append, additions_append]
    apply ih.step (e := .append e.1 e.2)
    cases hold : (table vars).lookup e.1 with
    | none => simp [Event.key, Event.result, hold]
    | some old =>
      have hl : old.isLocked = false := (ih.isLocked hold).trans (locked_additions e.1 vars)
      simp only [Event.key, Event.result, hold, Cell.copyInto_eq, hl]
      rfl

end Tracks

end CellHeap.Context
