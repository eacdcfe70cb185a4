import CellHeap.Proofs.Heap.Inventory
import CellHeap.Proofs.Series.Elements

/-!
# Edits of series as edits of lists

Through the list of its elements, every edit of a series is a plain edit of a list:
text is edited by characters, although it is cut by byte offsets, and storage that is
set aside first does not show. Nothing else of the buffer changes and no other buffer.
-/

set_option autoImplicit false

namespace CellHeap

namespace Buffer

variable {b b' : Buffer} {xs : List Item} {i n : Nat}

structure Rewritten (b b' : Buffer) (xs : List Item) : Prop where
  items : b'.items = xs
  elementKind : b'.elementKind = b.elementKind
  frame : b' = { b with contents := b'.contents, reserved := b'.reserved }

theorem Rewritten.of_reserve (hr : (b.reserve n).Rewritten b' xs) : b.Rewritten b' xs :=
  ⟨hr.items, hr.elementKind, hr.frame⟩

def Gives (b : Buffer) (x : Except Fault Buffer) (xs : List Item) : Prop :=
  ∃ b', x = .ok b' ∧ b.Rewritten b' xs

theorem gives_of_ok {e : Except Fault Buffer} {old x : Contents} (hb : b.contents = old)
    (he : e = .ok (b.withContents x)) (hk : x.elementKind = old.elementKind)
    (hx : x.items = xs) : b.Gives e xs := by
  have hold : b.elementKind = old.elementKind := by rw [Buffer.elementKind, hb]
  exact ⟨_, he, hx, hk.trans hold.symm, rfl⟩

theorem length_of_contents {x : Contents} (hx : b.contents = x) : b.length = x.length := by
  rw [Buffer.length, hx]

theorem items_of_contents {x : Contents} (hx : b.contents = x) : b.items = x.items := by
  rw [Buffer.items, hx]

theorem contents_of_bytes (hk : b.elementKind = .bytes) : ∃ bs, b.contents = .bytes bs := by
  cases hx : b.contents <;> simp_all [Buffer.elementKind, Contents.elementKind]

theorem contents_of_text (hk : b.elementKind = .text) : ∃ s, b.contents = .text s := by
  cases hx : b.contents <;> simp_all [Buffer.elementKind, Contents.elementKind]

theorem contents_of_cells (hk : b.elementKind = .cells) : ∃ cs, b.contents = .cells cs := by
  cases hx : b.contents <;> simp_all [Buffer.elementKind, Contents.elementKind]

theorem insertCells_gives {new : List Cell} (hk : b.elementKind = .cells)
    (hz : b.fixedSize = false) (hnew : ∀ c ∈ new, c.isAntiform = false) (hi : i ≤ b.length) :
    b.Gives (b.insertCells i new) (b.items.take i ++ new.map .cell ++ b.items.drop i) := by
  obtain ⟨cs, hx⟩ := contents_of_cells hk
  have hnone : new.find? (!·.isElement) = none := by
    simpa [Cell.isElement] using hnew
  have hcs : ¬ cs.length < i := by
    rw [length_of_contents hx] at hi
    exact Nat.not_lt.2 hi
  have hok : b.insertCells i new =
      .ok (b.withContents (.cells (cs.take i ++ new ++ cs.drop i))) := by
    simp [insertCells, checkResizable, hz, checkElements, hnone, array, hx, hcs]
  refine gives_of_ok hx hok rfl ?_
  simp [items_of_contents hx, Contents.items]

theorem insertText_gives {new : String} (hk : b.elementKind = .text) (hi : i ≤ b.length) :
    b.Gives (b.insertText i new)
      (b.items.take i ++ new.toList.map .char ++ b.items.drop i) := by
  obtain ⟨s, hx⟩ := contents_of_text hk
  rw [length_of_contents hx] at hi
  have hok : b.insertText i new = .ok (b.withContents (.text
      (String.ofList (s.toList.take i) ++ new ++ String.ofList (s.toList.drop i)))) := by
    simp [insertText, text, hx, Text.splitAt_of_le hi]
  refine gives_of_ok hx hok rfl ?_
  simp [items_of_contents hx, Contents.items]

theorem insertBytes_gives {new : List UInt8} (hk : b.elementKind = .bytes) (hi : i ≤ b.length) :
    b.Gives (b.insertBytes i new) (b.items.take i ++ new.map .byte ++ b.items.drop i) := by
  obtain ⟨bs, hx⟩ := contents_of_bytes hk
  have hbs : ¬ bs.length < i := by
    rw [length_of_contents hx] at hi
    exact Nat.not_lt.2 hi
  have hok : b.insertBytes i new =
      .ok (b.withContents (.bytes (bs.take i ++ new ++ bs.drop i))) := by
    simp [insertBytes, bytes, hx, hbs]
  refine gives_of_ok hx hok rfl ?_
  simp [items_of_contents hx, Contents.items]

theorem remove_gives (hk : b.elementKind ≠ .pairing) (hz : b.fixedSize = false)
    (hi : i ≤ b.length) :
    b.Gives (b.remove i n) (b.items.take i ++ b.items.drop (min (i + n) b.length)) := by
  have hpast : ¬ b.length < i := Nat.not_lt.2 hi
  cases hx : b.contents with
  | bytes bs =>
    have hok : b.remove i n =
        .ok (b.withContents (.bytes (bs.take i ++ bs.drop (min (i + n) b.length)))) := by
      simp [remove, checkResizable, hz, hpast, hx]
    refine gives_of_ok hx hok rfl ?_
    simp [items_of_contents hx, Contents.items]
  | cells cs =>
    have hok : b.remove i n =
        .ok (b.withContents (.cells (cs.take i ++ cs.drop (min (i + n) b.length)))) := by
      simp [remove, checkResizable, hz, hpast, hx]
    refine gives_of_ok hx hok rfl ?_
    simp [items_of_contents hx, Contents.items]
  | text s =>
    have hlength : b.length = s.length := length_of_contents hx
    have hstop : min (i + n) b.length ≤ s.length := by omega
    have hok : b.remove i n = .ok (b.withContents (.text (String.ofList (s.toList.take i) ++
        String.ofList (s.toList.drop (min (i + n) b.length))))) := by
      simp [remove, checkResizable, hz, hpast, hx, Text.splitAt_of_le (hlength ▸ hi),
        Text.splitAt_of_le hstop]
    refine gives_of_ok hx hok rfl ?_
    simp [items_of_contents hx, Contents.items]
  | pairing x y =>
    rw [Buffer.elementKind, hx] at hk
    exact absurd rfl hk

theorem truncate_gives (hk : b.elementKind ≠ .pairing) (hz : b.fixedSize = false) (n : Nat) :
    b.Gives (b.truncate n) (b.items.take n) := by
  unfold truncate
  by_cases hn : b.length ≤ n
  · rw [if_pos hn, List.take_of_length_le (b.length_items ▸ hn)]
    exact ⟨b, rfl, rfl, rfl, rfl⟩
  · have hcut := remove_gives (n := b.length - n) hk hz (Nat.le_of_not_le hn)
    have hstop : min (n + (b.length - n)) b.length = b.items.length := by
      rw [b.length_items]
      omega
    rw [if_neg hn]
    rwa [hstop, List.drop_length, List.append_nil] at hcut

theorem setCell_gives {v : Cell} (hk : b.elementKind = .cells) (hv : v.isAntiform = false)
    (hi : i < b.length) : ∃ old, b.items[i]? = some (.cell old) ∧
      b.Gives (b.setCell i v) (b.items.set i (.cell (v.copyInto old))) := by
  obtain ⟨cs, hx⟩ := contents_of_cells hk
  have hcs : i < cs.length := by
    rw [length_of_contents hx] at hi
    exact hi
  have hok : b.setCell i v = .ok (b.withContents (.cells (cs.set i (v.copyInto cs[i])))) := by
    simp [setCell, checkElements, Cell.isElement, hv, hx, hcs]
  refine ⟨cs[i], by simp [items_of_contents hx, Contents.items, hcs], ?_⟩
  refine gives_of_ok hx hok rfl ?_
  simp [items_of_contents hx, Contents.items, List.map_set]

theorem setCell_past {v : Cell} (hk : b.elementKind = .cells) (hv : v.isAntiform = false)
    (hi : b.length ≤ i) : b.setCell i v = .error (.outOfRange i b.length) := by
  obtain ⟨cs, hx⟩ := contents_of_cells hk
  rw [length_of_contents hx] at hi ⊢
  simp [setCell, checkElements, Cell.isElement, hv, hx, Contents.length, List.getElem?_eq_none hi]

end Buffer

namespace Series

structure Editable (h : Heap) (c : Cell) (id : BufferId) (i : Nat) (b : Buffer) : Prop where
  payload : c.payload = .series id i
  mutable : c.isConst = false
  read : h.read id = .ok b
  thawed : b.frozen = false

def Leaves (x : HeapM Unit) (h : Heap) (id : BufferId) (b : Buffer) (xs : List Item) : Prop :=
  ∃ h' b', x h = .ok () h' ∧ h'.read id = .ok b' ∧ b.Rewritten b' xs ∧
    (∀ j, j ≠ id → h'.buffer? j = h.buffer? j) ∧ h'.symbols = h.symbols

section Leaves

variable {h : Heap} {c : Cell} {id : BufferId} {i n : Nat} {b b' : Buffer} {xs : List Item}
  {f : Nat → Buffer → Except Fault Buffer}

theorem Editable.ensureMutable (he : Editable h c id i b) : ensureMutable h c = .ok id := by
  have hw : h.writable id = .ok b := Heap.writable_eq_ok_iff.2 ⟨he.read, he.thawed⟩
  simp [Series.ensureMutable, parts, he.payload, he.mutable, hw]

theorem Editable.setBuffer (he : Editable h c id i b) (hr : b.Rewritten b' xs) :
    Editable (h.setBuffer id b') c id i b' := by
  obtain ⟨hb, hl⟩ := Heap.read_eq_ok_iff.1 he.read
  refine ⟨he.payload, he.mutable, Heap.read_eq_ok_iff.2 ⟨?_, ?_⟩, ?_⟩
  · rw [Heap.buffer?_setBuffer hb, if_pos rfl]
  · rw [hr.frame]
    exact hl
  · rw [hr.frame]
    exact he.thawed

theorem Editable.edit_leaves {g : Buffer → Except Fault Buffer} (he : Editable h c id i b)
    (hg : b.Gives (g b) xs) : Leaves (HeapM.edit id g) h id b xs := by
  obtain ⟨b', hok, hr⟩ := hg
  refine ⟨h.setBuffer id b', b', ?_, (he.setBuffer hr).read, hr, ?_, rfl⟩
  · exact HeapM.edit_of_writable (Heap.writable_eq_ok_iff.2 ⟨he.read, he.thawed⟩) hok
  · intro j hj
    rw [Heap.buffer?_setBuffer (Heap.read_eq_ok_iff.1 he.read).1, if_neg hj]

theorem Editable.editAt_apply (he : Editable h c id i b) (hi : i ≤ b.length) :
    editAt c f h = HeapM.edit id (f i) h := by
  unfold editAt
  rw [HeapM.reading_of_ok he.ensureMutable,
    HeapM.reading_of_ok (checked_of_le he.payload he.read hi)]

theorem Editable.editAt_leaves (he : Editable h c id i b) (hi : i ≤ b.length)
    (hf : b.Gives (f i b) xs) : Leaves (editAt c f) h id b xs := by
  unfold Leaves
  rw [he.editAt_apply hi]
  exact he.edit_leaves hf

/-- An edit after storage is set aside. -/
theorem Editable.grow_leaves (he : Editable h c id i b) (hi : i ≤ b.length)
    (hf : ∀ m, (b.reserve m).Gives (f i (b.reserve m)) xs) :
    Leaves (do reserve c n; editAt c f) h id b xs := by
  let room := b.reserve (max n h.config.minCapacity)
  have hroom : b.Rewritten room b.items := ⟨rfl, rfl, rfl⟩
  have hreserve : reserve c n h = .ok () (h.setBuffer id room) := by
    have hedit := he.editAt_apply (f := fun _ b => .ok (b.reserve (max n h.config.minCapacity))) hi
    refine Eq.trans hedit ?_
    exact HeapM.edit_of_writable (Heap.writable_eq_ok_iff.2 ⟨he.read, he.thawed⟩) rfl
  obtain ⟨h', b', hok, hread, hr, hother, hsymbols⟩ :=
    (he.setBuffer hroom).editAt_leaves hi (hf _)
  refine ⟨h', b', ?_, hread, hr.of_reserve, ?_, hsymbols⟩
  · rw [HeapM.bind_apply, hreserve]
    exact hok
  · intro j hj
    rw [hother j hj, Heap.buffer?_setBuffer (Heap.read_eq_ok_iff.1 he.read).1, if_neg hj]

theorem Editable.truncate_leaves (he : Editable h c id i b) (hk : b.elementKind ≠ .pairing)
    (hz : b.fixedSize = false) (n : Nat) : Leaves (truncate c n) h id b (b.items.take n) := by
  have hedit := he.edit_leaves (g := (·.truncate n)) (Buffer.truncate_gives hk hz n)
  unfold Leaves truncate
  rw [HeapM.reading_of_ok he.ensureMutable]
  exact hedit

/-- Positions add up as long as the buffer is no longer than positions reach. -/
theorem addOffset_of_lt (hb : b.length ≤ maxIndex) (hn : i + n < b.length) :
    addOffset i n = i + n :=
  Nat.min_eq_left (Nat.le_trans (Nat.le_of_lt hn) hb)

theorem length_le_addOffset (hb : b.length ≤ maxIndex) (hn : b.length ≤ i + n) :
    b.length ≤ addOffset i n :=
  Nat.le_min.2 ⟨hn, hb⟩

theorem Editable.changeCell_leaves {v : Cell} (he : Editable h c id i b) (hi : i ≤ b.length)
    (hk : b.elementKind = .cells) (hb : b.length ≤ maxIndex) (hv : v.isAntiform = false)
    (hn : i + n < b.length) : ∃ old, b.items[i + n]? = some (.cell old) ∧
      Leaves (changeCell c n v) h id b (b.items.set (i + n) (.cell (v.copyInto old))) := by
  obtain ⟨old, hold, hset⟩ := Buffer.setCell_gives hk hv hn
  refine ⟨old, hold, he.editAt_leaves hi ?_⟩
  rw [addOffset_of_lt hb hn]
  exact hset

theorem Editable.changeCell_past {v : Cell} (he : Editable h c id i b) (hi : i ≤ b.length)
    (hk : b.elementKind = .cells) (hb : b.length ≤ maxIndex) (hv : v.isAntiform = false)
    (hn : b.length ≤ i + n) :
    changeCell c n v h = .error (.outOfRange (addOffset i n) b.length) h := by
  have hw : h.writable id = .ok b := Heap.writable_eq_ok_iff.2 ⟨he.read, he.thawed⟩
  unfold changeCell
  rw [he.editAt_apply hi]
  simp [HeapM.edit, hw, Buffer.setCell_past hk hv (length_le_addOffset hb hn)]

end Leaves

/-- Every edit of a series that may be edited is an edit of the list of its elements, whatever
run made the heap. Only cutting to a length goes without a position inside the buffer. All
positions at which text is divided lie between characters. -/
theorem edits_are_list_edits (config : Config) (before : List Operation) (c : Cell)
    (id : BufferId) (i : Nat) (b : Buffer)
    (he : Editable ((Heap.new config).run before) c id i b) (hk : b.elementKind ≠ .pairing) :
    let h := (Heap.new config).run before
    (∀ n, Leaves (truncate c n) h id b (b.items.take n)) ∧
    (i ≤ b.length →
      (∀ n, Leaves (removeAt c n) h id b
        (b.items.take i ++ b.items.drop (min (i + n) b.length))) ∧
      Leaves (truncateAt c) h id b (b.items.take i) ∧
      (b.elementKind = .bytes → ∀ new,
        Leaves (appendBytes c new) h id b (b.items ++ new.map .byte)) ∧
      (b.elementKind = .text → ∀ new,
        Leaves (appendText c new) h id b (b.items ++ new.toList.map .char) ∧
        Leaves (insertText c new) h id b
          (b.items.take i ++ new.toList.map .char ++ b.items.drop i)) ∧
      (b.elementKind = .cells → ∀ new, (∀ d ∈ new, d.isAntiform = false) →
        Leaves (appendCells c new) h id b (b.items ++ new.map .cell) ∧
        Leaves (insertCells c new) h id b
          (b.items.take i ++ new.map .cell ++ b.items.drop i)) ∧
      (b.elementKind = .cells → b.length ≤ maxIndex → ∀ n v, v.isAntiform = false →
        (i + n < b.length → ∃ old, b.items[i + n]? = some (.cell old) ∧
          Leaves (changeCell c n v) h id b (b.items.set (i + n) (.cell { v with
            flags := { const := v.flags.const, newline := v.flags.newline,
                       locked := old.flags.locked, erased := false } }))) ∧
        (b.length ≤ i + n →
          changeCell c n v h = .error (.outOfRange (min (i + n) maxIndex) b.length) h))) ∧
    ∀ s, b.contents = .text s → ∀ j, j ≤ b.length → Text.Between s j := by
  intro h
  have hz : b.fixedSize = false := by
    rw [(Heap.formed_of_run config before (Heap.buffer?_of_read he.read)).fixedSize]
    simpa using hk
  -- an element added at the end stands after all that were there
  have hend : ∀ new : List Item,
      b.items.take b.length ++ new ++ b.items.drop b.length = b.items ++ new := by
    intro new
    rw [← b.length_items, List.take_length, List.drop_length, List.append_nil]
  refine ⟨he.truncate_leaves hk hz, fun hi => ⟨?_, ?_, ?_, ?_, ?_, ?_⟩, ?_⟩
  · intro n
    exact he.editAt_leaves hi (Buffer.remove_gives hk hz hi)
  · exact he.editAt_leaves hi (Buffer.truncate_gives hk hz i)
  · intro hbytes new
    rw [← hend]
    exact he.grow_leaves hi fun m => Buffer.insertBytes_gives hbytes (Nat.le_refl _)
  · intro htext new
    refine ⟨?_, he.grow_leaves hi fun m => Buffer.insertText_gives htext hi⟩
    rw [← hend]
    exact he.grow_leaves hi fun m => Buffer.insertText_gives htext (Nat.le_refl _)
  · intro hcells new hnew
    refine ⟨?_, he.grow_leaves hi fun m => Buffer.insertCells_gives hcells hz hnew hi⟩
    rw [← hend]
    exact he.grow_leaves hi fun m => Buffer.insertCells_gives hcells hz hnew (Nat.le_refl _)
  · intro hcells hb n v hv
    exact ⟨he.changeCell_leaves hi hcells hb hv, he.changeCell_past hi hcells hb hv⟩
  · intro s hs j hj
    rw [Buffer.length_of_contents hs] at hj
    exact Text.between_of_le hj

/-- Text with a wide character, edited before and after it. -/
theorem edits_are_list_edits_wide :
    let h := (Heap.new {}).run [.makeString .text "aéz"]
    let c := Cell.bare .text (.series ⟨0, 0⟩ 1)
    ∃ b, Editable h c ⟨0, 0⟩ 1 b ∧ b.elementKind ≠ .pairing ∧
      Leaves (removeAt c 1) h ⟨0, 0⟩ b [.char 'a', .char 'z'] ∧
      Leaves (insertText c "ß") h ⟨0, 0⟩ b [.char 'a', .char 'ß', .char 'é', .char 'z'] ∧
      Leaves (truncate c 2) h ⟨0, 0⟩ b [.char 'a', .char 'é'] := by
  intro h c
  have hread : ∃ b, h.read ⟨0, 0⟩ = .ok b ∧ b.frozen = false ∧ b.contents = .text "aéz" :=
    ⟨_, rfl, rfl, rfl⟩
  obtain ⟨b, hb, hthawed, hcontents⟩ := hread
  have hkind : b.elementKind = .text := by rw [Buffer.elementKind, hcontents]; rfl
  have hlength : b.length = 3 := by rw [Buffer.length, hcontents]; decide +kernel
  have hitems : b.items = [.char 'a', .char 'é', .char 'z'] := by
    rw [Buffer.items, hcontents]
    decide +kernel
  have he : Editable h c ⟨0, 0⟩ 1 b := ⟨rfl, rfl, hb, hthawed⟩
  obtain ⟨htruncate, hinside, _⟩ := edits_are_list_edits {} [.makeString .text "aéz"] c ⟨0, 0⟩ 1 b
    he (by simp [hkind])
  obtain ⟨hremove, _, _, htext, _⟩ := hinside (by omega)
  have hcut := htruncate 2
  have hremoved := hremove 1
  have hinserted := (htext hkind "ß").2
  rw [hitems] at hcut hremoved hinserted
  rw [hlength] at hremoved
  exact ⟨b, he, by simp [hkind], hremoved, hinserted, hcut⟩

end Series

end CellHeap
