import CellHeap.Proofs.Cell.Header
import CellHeap.Proofs.Map.Pairlist

/-!
# Pairs and the history that made them

A history is what was put and removed, the latest first. The pairs of a map track
its history if every key finds among the pairs the value that was put under an
equal key last, unless it was removed since. A put and a removal keep this up, and
so does every change of the heap that leaves the contents of the keys alone.
-/

set_option autoImplicit false

namespace CellHeap.Map

inductive Event where
  | put (key value : Cell)
  | remove (key : Cell)

def Event.key : Event → Cell
  | .put k _ => k
  | .remove k => k

def Event.value? : Event → Option Cell
  | .put _ v => some v
  | .remove _ => none

def latest (h : Heap) (key : Cell) (evs : List Event) : Option Cell :=
  (evs.find? fun e => keysEqual h e.key key = .ok true).bind Event.value?

def lookup (h : Heap) (key : Cell) (ps : List (Cell × Cell)) : Option Cell :=
  (ps.find? fun p => keysEqual h p.1 key = .ok true).map (·.2)

theorem find?_congr_mem {α : Type} {l : List α} {p q : α → Bool} (hpq : ∀ a ∈ l, p a = q a) :
    l.find? p = l.find? q := by
  induction l with
  | nil => rfl
  | cons a l ih =>
    rw [List.forall_mem_cons] at hpq
    simp only [List.find?_cons, hpq.1, ih hpq.2]

structure Tracks (h : Heap) (ps : List (Cell × Cell)) (evs : List Event) : Prop where
  distinct : ps.Pairwise fun p q => keysEqual h p.1 q.1 = .ok false
  known : ∀ p ∈ ps, ∃ e ∈ evs, e.key = p.1
  current : ∀ key,
    (lookup h key ps).map Cell.unflagged = (latest h key evs).map Cell.unflagged

section Lookup

variable {h h' : Heap} {a b key k v : Cell} {ps pre post : List (Cell × Cell)} {evs : List Event}

/-- Equal keys are equal to the same keys. -/
theorem keysEqual_iff (hab : keysEqual h a b = .ok true) (x : Cell) :
    keysEqual h x a = .ok true ↔ keysEqual h x b = .ok true :=
  ⟨fun hx => keysEqual_trans hx hab, fun hx => keysEqual_trans hx (keysEqual_symm hab)⟩

theorem lookup_congr (hab : keysEqual h a b = .ok true) (ps : List (Cell × Cell)) :
    lookup h a ps = lookup h b ps := by
  simp only [lookup, keysEqual_iff hab]

theorem latest_congr (hab : keysEqual h a b = .ok true) (evs : List Event) :
    latest h a evs = latest h b evs := by
  simp only [latest, keysEqual_iff hab]

theorem lookup_eq_none (hn : ∀ p ∈ ps, keysEqual h p.1 key ≠ .ok true) :
    lookup h key ps = none := by
  unfold lookup
  rw [Option.map_eq_none_iff, List.find?_eq_none]
  simpa using hn

theorem latest_eq_none (hn : ∀ e ∈ evs, keysEqual h e.key key ≠ .ok true) :
    latest h key evs = none := by
  have hfind : (evs.find? fun e => decide (keysEqual h e.key key = .ok true)) = none := by
    rw [List.find?_eq_none]
    simpa using hn
  rw [latest, hfind]
  rfl

theorem latest_cons_of_eq {e : Event} (hk : keysEqual h e.key key = .ok true) :
    latest h key (e :: evs) = e.value? := by
  simp [latest, hk]

theorem latest_cons_of_ne {e : Event} (hk : keysEqual h e.key key ≠ .ok true) :
    latest h key (e :: evs) = latest h key evs := by
  simp [latest, hk]

theorem lookup_append_of_ne (hn : ∀ p ∈ pre, keysEqual h p.1 key ≠ .ok true) :
    lookup h key (pre ++ post) = lookup h key post := by
  have hpre : (pre.find? fun p => decide (keysEqual h p.1 key = .ok true)) = none := by
    rw [List.find?_eq_none]
    simpa using hn
  simp only [lookup, List.find?_append, hpre, Option.none_or]

theorem lookup_cons_of_eq (hk : keysEqual h k key = .ok true) :
    lookup h key ((k, v) :: post) = some v := by
  simp [lookup, hk]

/-- A pair whose key differs can be left out. -/
theorem lookup_skip (hk : keysEqual h k key ≠ .ok true) :
    lookup h key (pre ++ (k, v) :: post) = lookup h key (pre ++ post) := by
  simp [lookup, List.find?_append, hk]

/-- It is enough to look at the keys of the history: any other key is equal to one of them or
found nowhere. -/
theorem current_of_known (hknown : ∀ p ∈ ps, ∃ e ∈ evs, e.key = p.1)
    (hcur : ∀ e ∈ evs, (lookup h e.key ps).map Cell.unflagged =
      (latest h e.key evs).map Cell.unflagged) (key : Cell) :
    (lookup h key ps).map Cell.unflagged = (latest h key evs).map Cell.unflagged := by
  by_cases hex : ∃ e ∈ evs, keysEqual h e.key key = .ok true
  · obtain ⟨e, he, hk⟩ := hex
    rw [← lookup_congr hk, ← latest_congr hk]
    exact hcur e he
  · have hne : ∀ e ∈ evs, keysEqual h e.key key ≠ .ok true := by
      intro e he hk
      exact hex ⟨e, he, hk⟩
    rw [latest_eq_none hne, lookup_eq_none]
    intro p hp
    obtain ⟨e, he, hkey⟩ := hknown p hp
    rw [← hkey]
    exact hne e he

end Lookup

namespace Tracks

variable {h h' : Heap} {key value : Cell} {ps ps' : List (Cell × Cell)} {evs : List Event}

/-- Only comparisons of keys of the history matter. -/
theorem congr (ht : Tracks h ps evs)
    (hk : ∀ e ∈ evs, ∀ e' ∈ evs, keysEqual h' e.key e'.key = keysEqual h e.key e'.key) :
    Tracks h' ps evs := by
  have hstored : ∀ p ∈ ps, ∀ e ∈ evs, keysEqual h' p.1 e.key = keysEqual h p.1 e.key := by
    intro p hp e he
    obtain ⟨e', he', hkey⟩ := ht.known p hp
    rw [← hkey]
    exact hk e' he' e he
  refine ⟨?_, ht.known, ?_⟩
  · apply ht.distinct.imp_of_mem
    intro p q hp hq hpq
    obtain ⟨e, he, hkey⟩ := ht.known q hq
    rw [← hkey, hstored p hp e he, hkey]
    exact hpq
  · apply current_of_known ht.known
    intro e he
    have hlookup : lookup h' e.key ps = lookup h e.key ps := by
      unfold lookup
      rw [find?_congr_mem fun p hp => by rw [hstored p hp e he]]
    have hlatest : latest h' e.key evs = latest h e.key evs := by
      unfold latest
      rw [find?_congr_mem fun x hx => by rw [hk x hx e he]]
    rw [hlookup, hlatest]
    exact ht.current e.key

theorem distinct_of_ne (ht : Tracks h ps evs) {pre post : List (Cell × Cell)} {p : Cell × Cell}
    (hps : ps = pre ++ p :: post) : ∀ q ∈ pre ++ post, keysEqual h q.1 p.1 = .ok false := by
  have hd := ht.distinct
  rw [hps, List.pairwise_append] at hd
  obtain ⟨_, hpost, hpre⟩ := hd
  intro q hq
  rcases List.mem_append.1 hq with hq | hq
  · exact hpre q hq p (by simp)
  · exact keysEqual_symm ((List.pairwise_cons.1 hpost).1 q hq)

/-- After a put, every key equal to the one put finds the new value, and no other key finds
anything else than before. -/
theorem inserts (ht : Tracks h ps evs) (hi : Inserts h key value ps ps') :
    Tracks h ps' (.put key value :: evs) := by
  have hold : ∀ p ∈ ps, ∃ e ∈ Event.put key value :: evs, e.key = p.1 := by
    intro p hp
    obtain ⟨e, he, hkey⟩ := ht.known p hp
    exact ⟨e, by simp [he], hkey⟩
  cases hi with
  | @replaced k old pre post hpre hk =>
    have hothers := ht.distinct_of_ne rfl
    refine ⟨?_, ?_, ?_⟩
    · simpa [List.pairwise_append, List.pairwise_cons] using ht.distinct
    · intro p hp
      rcases List.mem_append.1 hp with hp | hp
      · exact hold p (by simp [hp])
      · rcases List.mem_cons.1 hp with rfl | hp
        · exact hold (k, old) (by simp)
        · exact hold p (by simp [hp])
    · intro x
      by_cases hx : keysEqual h key x = .ok true
      · rw [latest_cons_of_eq hx, lookup_append_of_ne, lookup_cons_of_eq (keysEqual_trans hk hx)]
        · simp [Event.value?]
        · intro p hp hpx
          have hpk := keysEqual_trans hpx (keysEqual_symm (keysEqual_trans hk hx))
          rw [hothers p (by simp [hp])] at hpk
          cases hpk
      · have hkx : keysEqual h k x ≠ .ok true :=
          fun hkx => hx (keysEqual_trans (keysEqual_symm hk) hkx)
        rw [latest_cons_of_ne hx, lookup_skip hkx, ← ht.current x, lookup_skip hkx]
  | appended hps =>
    refine ⟨?_, ?_, ?_⟩
    · rw [List.pairwise_append]
      exact ⟨ht.distinct, by simp, by simpa using hps⟩
    · intro p hp
      rcases List.mem_append.1 hp with hp | hp
      · exact hold p hp
      · rw [List.mem_singleton.1 hp]
        exact ⟨.put key value, by simp, rfl⟩
    · intro x
      by_cases hx : keysEqual h key x = .ok true
      · rw [latest_cons_of_eq hx, lookup_append_of_ne, lookup_cons_of_eq hx]
        · rfl
        · intro p hp hpx
          have hpk := keysEqual_trans hpx (keysEqual_symm hx)
          rw [hps p hp] at hpk
          cases hpk
      · rw [latest_cons_of_ne hx, ← ht.current x, lookup_skip hx, List.append_nil]

/-- After a removal, no key equal to the one removed finds anything. -/
theorem deletes {found : Bool} (ht : Tracks h ps evs) (hd : Deletes h key ps ps' found) :
    Tracks h ps' (.remove key :: evs) := by
  have hold : ∀ p ∈ ps, ∃ e ∈ Event.remove key :: evs, e.key = p.1 := by
    intro p hp
    obtain ⟨e, he, hkey⟩ := ht.known p hp
    exact ⟨e, by simp [he], hkey⟩
  cases hd with
  | @removed k old pre post hpre hk =>
    have hothers := ht.distinct_of_ne rfl
    have hsub : (pre ++ post).Sublist (pre ++ (k, old) :: post) :=
      (List.sublist_cons_self _ _).append_left pre
    refine ⟨ht.distinct.sublist hsub, fun p hp => hold p (hsub.subset hp), ?_⟩
    intro x
    by_cases hx : keysEqual h key x = .ok true
    · rw [latest_cons_of_eq hx, lookup_eq_none]
      · rfl
      · intro p hp hpx
        have hpk := keysEqual_trans hpx (keysEqual_symm (keysEqual_trans hk hx))
        rw [hothers p hp] at hpk
        cases hpk
    · have hkx : keysEqual h k x ≠ .ok true :=
        fun hkx => hx (keysEqual_trans (keysEqual_symm hk) hkx)
      rw [latest_cons_of_ne hx, ← ht.current x, lookup_skip hkx]
  | absent hps =>
    refine ⟨ht.distinct, hold, ?_⟩
    intro x
    by_cases hx : keysEqual h key x = .ok true
    · rw [latest_cons_of_eq hx, lookup_eq_none]
      · rfl
      · intro p hp hpx
        have hpk := keysEqual_trans hpx (keysEqual_symm hx)
        rw [hps p hp] at hpk
        cases hpk
    · rw [latest_cons_of_ne hx, ht.current x]

end Tracks

end CellHeap.Map
