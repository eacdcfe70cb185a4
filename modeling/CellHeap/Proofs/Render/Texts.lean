import CellHeap.Proofs.Heap.Lifetime
import CellHeap.Proofs.Render.Locality
import CellHeap.Proofs.Sequence.Plan
import CellHeap.Proofs.Series.Elements

/-!
# Rendered texts can be read back

A quoted text ends at the first quote that no caret stands before, and the three
escapes are told apart by the character after the caret. So a reader finds the end
of a rendered text and its string whatever follows, and goes on behind it. A
rendered block of texts is read text by text in the same way: what stands behind a
text is a blank or the closing bracket, and no string can write either of them there.
-/

set_option autoImplicit false

namespace CellHeap.Render

open Rendering

def unescape? : Char → Option Char
  | '"' => some '"'
  | '^' => some '^'
  | '/' => some '\n'
  | _ => none

def readQuoted : List Char → Option (List Char × List Char)
  | [] => none
  | '"' :: rest => some ([], rest)
  | '^' :: c :: rest => do
    let x ← unescape? c
    let p ← readQuoted rest
    return (x :: p.1, p.2)
  | c :: rest => do
    let p ← readQuoted rest
    return (c :: p.1, p.2)

def readText : List Char → Option (String × List Char)
  | '"' :: rest => (readQuoted rest).map fun p => (String.ofList p.1, p.2)
  | _ => none

theorem readQuoted_escape (c : Char) (rest : List Char) :
    readQuoted (escape c ++ rest) = (readQuoted rest).map fun p => (c :: p.1, p.2) := by
  unfold escape
  by_cases hquote : c = '"'
  · subst hquote
    cases h : readQuoted rest <;> simp [readQuoted, unescape?, h]
  by_cases hcaret : c = '^'
  · subst hcaret
    cases h : readQuoted rest <;> simp [readQuoted, unescape?, h]
  by_cases hline : c = '\n'
  · subst hline
    cases h : readQuoted rest <;> simp [readQuoted, unescape?, h]
  · cases h : readQuoted rest <;> simp [readQuoted, h, hcaret]

theorem readQuoted_escaped (cs rest : List Char) :
    readQuoted (cs.flatMap escape ++ '"' :: rest) = some (cs, rest) := by
  induction cs with
  | nil => rfl
  | cons c cs ih => rw [List.flatMap_cons, List.append_assoc, readQuoted_escape, ih, Option.map_some]

theorem toList_stringText (s : String) :
    (stringText .text s).toList = '"' :: s.toList.flatMap escape ++ ['"'] := by
  simp [stringText]

/-- A rendered text is read back, whatever follows it. -/
theorem readText_stringText (s : String) (rest : List Char) :
    readText ((stringText .text s).toList ++ rest) = some (s, rest) := by
  rw [toList_stringText, List.append_assoc]
  simp [readText, readQuoted_escaped]

theorem stringText_append_inj {s t : String} {x y : List Char}
    (he : (stringText .text s).toList ++ x = (stringText .text t).toList ++ y) : s = t ∧ x = y := by
  have hs := readText_stringText s x
  rw [he, readText_stringText] at hs
  cases hs
  exact ⟨rfl, rfl⟩

def further (ss : List String) : List Char := ss.flatMap fun s => ' ' :: (stringText .text s).toList

def blockText (ss : List String) : String :=
  "[" ++ " ".intercalate (ss.map (stringText .text)) ++ "]"

theorem further_append_inj {ss ts : List String} {x y : List Char}
    (he : further ss ++ ']' :: x = further ts ++ ']' :: y) : ss = ts ∧ x = y := by
  induction ss generalizing ts with
  | nil =>
    cases ts with
    | nil => simpa [further] using he
    | cons t ts => simp [further] at he
  | cons s ss ih =>
    cases ts with
    | nil => simp [further] at he
    | cons t ts =>
      simp only [further, List.flatMap_cons, List.cons_append, List.append_assoc,
        List.cons.injEq, true_and] at he
      obtain ⟨rfl, hrest⟩ := stringText_append_inj he
      obtain ⟨rfl, hxy⟩ := ih hrest
      exact ⟨rfl, hxy⟩

theorem toList_blockText_nil : (blockText []).toList = ['[', ']'] := by
  simp [blockText]

theorem toList_blockText_cons (s : String) (ss : List String) : (blockText (s :: ss)).toList =
    '[' :: (stringText .text s).toList ++ further ss ++ [']'] := by
  have hsep : ∀ (l : List Char) (ls : List (List Char)),
      [' '].intercalate (l :: ls) = l ++ ls.flatMap (' ' :: ·) := by
    intro l ls
    induction ls generalizing l with
    | nil => simp
    | cons l' ls ih => rw [List.intercalate_cons_cons, ih]; simp
  simp only [blockText, String.toList_append, String.toList_intercalate, List.map_cons, List.map_map]
  rw [show (" " : String).toList = [' '] from rfl, hsep]
  simp [further, List.flatMap_map]

theorem blockText_append_inj {ss ts : List String} {x y : List Char}
    (he : (blockText ss).toList ++ x = (blockText ts).toList ++ y) : ss = ts ∧ x = y := by
  cases ss with
  | nil =>
    cases ts with
    | nil => simpa [toList_blockText_nil] using he
    | cons t ts => simp [toList_blockText_nil, toList_blockText_cons, toList_stringText] at he
  | cons s ss =>
    cases ts with
    | nil => simp [toList_blockText_nil, toList_blockText_cons, toList_stringText] at he
    | cons t ts =>
      simp only [toList_blockText_cons, List.cons_append, List.append_assoc, List.nil_append,
        List.cons.injEq, true_and] at he
      obtain ⟨rfl, hrest⟩ := stringText_append_inj he
      obtain ⟨rfl, hxy⟩ := further_append_inj hrest
      exact ⟨rfl, hxy⟩

structure TextCell (h : Heap) (c : Cell) (s : String) : Prop where
  kind : c.kind = .text
  bare : c.isBare = true
  readable : c.isReadable = true
  unbroken : c.flags.newline = false
  rest : Series.rest h c = .ok (.text s)

structure TextBlock (h : Heap) (c : Cell) (ss : List String) : Prop where
  kind : c.kind = .block
  bare : c.isBare = true
  readable : c.isReadable = true
  parts : ∃ cs, Series.rest h c = .ok (.cells cs) ∧ List.Forall₂ (TextCell h) cs ss

section Level

variable {h : Heap} {nested : List BufferId → Cell → Rendering} {stack : List BufferId} {c : Cell}

theorem payload_of_rest {x : Slice} (hx : Series.rest h c = .ok x) :
    ∃ id i, c.payload = .series id i := by
  obtain ⟨p, hc, _⟩ := bind_eq_ok_iff.1 hx
  obtain ⟨id, hp, _⟩ := Series.checked_eq_ok (b := p.1) (i := p.2) hc
  exact ⟨id, p.2, hp⟩

theorem level_of_text {s : String} (hc : TextCell h c s) :
    level h nested stack c = write (stringText .text s) := by
  apply level_of_body hc.bare hc.readable
  obtain ⟨id, i, hp⟩ := payload_of_rest hc.rest
  simp [body, hp, hc.kind, series, hc.rest, ofRead]

/-- Texts behind another one, each after a blank. -/
theorem each_of_texts {cs : List Cell} {ss : List String}
    (hn : ∀ c s, TextCell h c s → nested stack c = write (stringText .text s))
    (hcs : List.Forall₂ (TextCell h) cs ss) (i : Nat) :
    each (fun p => write (gap p.2 p.1) >> nested stack p.1) (cs.zipIdx (i + 1)) =
      write (String.ofList (further ss)) := by
  induction hcs generalizing i with
  | nil => rfl
  | @cons c s cs ss hc _ ih =>
    have hgap : gap (i + 1) c = " " := by simp [gap, hc.unbroken]
    simp only [List.zipIdx_cons, each, hgap, hn c s hc, ih (i + 1), write_andThen_write]
    refine congrArg write ?_
    simp [String.ext_iff, further]

theorem cells_of_texts {cs : List Cell} {ss : List String}
    (hn : ∀ c s, TextCell h c s → nested stack c = write (stringText .text s))
    (hcs : List.Forall₂ (TextCell h) cs ss) :
    (write "[" >> cells nested stack cs >> write "]") = write (blockText ss) := by
  cases hcs with
  | nil => rfl
  | @cons c s cs ss hc hcs =>
    have hgap : gap 0 c = "" := by simp [gap, hc.unbroken]
    have hall : cells nested stack (c :: cs) =
        write (stringText .text s ++ String.ofList (further ss)) := by
      unfold cells
      simp only [List.zipIdx_cons, each, hgap, hn c s hc, each_of_texts hn hcs 0,
        write_andThen_write, String.empty_append]
    rw [hall, write_andThen_write, write_andThen_write]
    refine congrArg write ?_
    simp [String.ext_iff, toList_blockText_cons]

theorem level_of_texts {ss : List String}
    (hn : ∀ stack c s, TextCell h c s → nested stack c = write (stringText .text s))
    (hc : TextBlock h c ss) : level h nested [] c = write (blockText ss) := by
  apply level_of_body hc.bare hc.readable
  obtain ⟨cs, hrest, hcs⟩ := hc.parts
  obtain ⟨id, i, hp⟩ := payload_of_rest hrest
  have hwrite := cells_of_texts (hn [id]) hcs
  simpa [body, hp, hc.kind, series, hrest, ofRead, inside, opening, closing] using hwrite

end Level

theorem mold_of_texts {h : Heap} {c : Cell} {ss : List String} (hc : TextBlock h c ss) :
    mold h c = .ok (blockText ss) := by
  obtain ⟨n, hn⟩ : ∃ n, depthBound h = n + 2 := by
    refine Nat.exists_eq_add_of_le' ?_
    show 2 ≤ (h.slots.size + 2) * (h.slots.size + 2)
    exact Nat.le_trans (Nat.le_add_left 2 _) (Nat.le_mul_self _)
  have hlevel : upTo h (n + 2) [] c = write (blockText ss) :=
    level_of_texts (fun _ _ _ hd => level_of_text hd) hc
  unfold mold render
  rw [hn, hlevel]
  rfl

def makeTexts : List String → HeapM (List Cell)
  | [] => return []
  | s :: ss => do
    let c ← Strings.make .text s
    let cs ← makeTexts ss
    return c :: cs

def makeTextBlock (ss : List String) : HeapM Cell := do Lists.make .block (← makeTexts ss)

section Make

variable {h g : Heap} {c : Cell} {s : String}

theorem rest_of_extends {x : Slice} (he : h.Extends g) (hx : Series.rest h c = .ok x) :
    Series.rest g c = .ok x := by
  obtain ⟨p, hc, _⟩ := bind_eq_ok_iff.1 hx
  obtain ⟨id, hp, hr, _⟩ := Series.checked_eq_ok (b := p.1) (i := p.2) hc
  have hsame : g.read id = h.read id := he.read (Heap.issued_of_buffer? (Heap.buffer?_of_read hr))
  rw [← hx]
  simp only [Series.rest, Series.checked, Series.parts, hp, hsame, ok_bind]

theorem TextCell.mono (he : h.Extends g) (hc : TextCell h c s) : TextCell g c s :=
  ⟨hc.kind, hc.bare, hc.readable, hc.unbroken, rest_of_extends he hc.rest⟩

theorem of_allocateManaged {id : BufferId} {x : Contents} (hs : h.Sound)
    (hx : Heap.allocateManaged x h = .ok id g) :
    g.Sound ∧ h.Extends g ∧ ∃ b, g.read id = .ok b ∧ b.contents = x := by
  refine ⟨(Heap.of_placed hs hx).1, .of_placed hs hx, _, Heap.read_of_placed hs hx ?_, rfl⟩
  simp [Buffer.toManaged]

theorem makeText_apply (hs : h.Sound) (s : String) : ∃ c g, Strings.make .text s h = .ok c g ∧
    g.Sound ∧ h.Extends g ∧ TextCell g c s := by
  have hx : Strings.make .text s h = .ok _ _ := rfl
  obtain ⟨id, ha, hc⟩ := HeapM.of_wrap hx
  obtain ⟨hg, he, b, hr, hb⟩ := of_allocateManaged hs ha
  refine ⟨_, _, hx, hg, he, ?_⟩
  rw [hc]
  refine ⟨rfl, rfl, rfl, rfl, ?_⟩
  rw [Series.rest_of_checked (Series.checked_of_le rfl hr (Nat.zero_le _)) (Nat.zero_le _), hb]
  simp [Contents.without]

/-- Making another text leaves the ones made before. -/
theorem makeTexts_apply (ss : List String) (hs : h.Sound) : ∃ cs g, makeTexts ss h = .ok cs g ∧
    g.Sound ∧ h.Extends g ∧ List.Forall₂ (TextCell g) cs ss := by
  induction ss generalizing h with
  | nil => exact ⟨[], h, rfl, hs, .refl h, .nil⟩
  | cons s ss ih =>
    obtain ⟨c, k, hc, hk, hek, hck⟩ := makeText_apply hs s
    obtain ⟨cs, g, hcs, hg, heg, hall⟩ := ih hk
    refine ⟨c :: cs, g, ?_, hg, hek.trans heg, .cons (hck.mono heg) hall⟩
    simp only [makeTexts, HeapM.bind_apply, hc, hcs]
    rfl

theorem makeTextBlock_apply (ss : List String) (hs : h.Sound) : ∃ c g,
    makeTextBlock ss h = .ok c g ∧ TextBlock g c ss := by
  obtain ⟨cs, k, hcs, hk, _, hall⟩ := makeTexts_apply ss hs
  have helement : ∀ c ∈ cs, c.isElement = true := by
    intro c hc
    obtain ⟨s, _, hs⟩ := forall₂_mem_right hall.flip hc
    exact Cell.isElement_of_isBare hs.bare
  obtain ⟨c, g, hx⟩ := (Lists.make_succeeds_iff (h := k) (k := .block)).2 helement
  obtain ⟨_, _, hx'⟩ := HeapM.of_checked hx
  obtain ⟨id, ha, rfl⟩ := HeapM.of_wrap hx'
  obtain ⟨_, he, b, hr, hb⟩ := of_allocateManaged hk ha
  refine ⟨.bare .block (.series id 0), g, ?_, rfl, rfl, rfl, cs, ?_,
    hall.imp fun _ _ => TextCell.mono he⟩
  · rw [makeTextBlock, HeapM.bind_apply, hcs]
    exact hx
  · rw [Series.rest_of_checked (Series.checked_of_le rfl hr (Nat.zero_le _)) (Nat.zero_le _), hb]
    rfl

end Make

/-- A block of texts can be made in every state. Blocks of plain texts, in whatever heaps, render to
the same text just if their strings are the same. A rendered text is read back whatever follows it,
so that none is a proper start of another, and a rendered block fixes its strings and what follows. -/
theorem texts_unambiguous :
    (∀ (config : Config) (before : List Operation) (ss : List String), ∃ c h,
      makeTextBlock ss ((Heap.new config).run before) = .ok c h ∧ TextBlock h c ss) ∧
    (∀ (h₁ h₂ : Heap) (c₁ c₂ : Cell) (ss ts : List String),
      TextBlock h₁ c₁ ss → TextBlock h₂ c₂ ts →
        mold h₁ c₁ = .ok (blockText ss) ∧ mold h₂ c₂ = .ok (blockText ts) ∧
          (mold h₁ c₁ = mold h₂ c₂ ↔ ss = ts)) ∧
    (∀ (s : String) (rest : List Char),
      readText ((stringText .text s).toList ++ rest) = some (s, rest)) ∧
    (∀ s t : String, (stringText .text s).toList <+: (stringText .text t).toList ↔ s = t) ∧
    ∀ (ss ts : List String) (x y : List Char),
      (blockText ss).toList ++ x = (blockText ts).toList ++ y ↔ ss = ts ∧ x = y := by
  refine ⟨fun config before ss => makeTextBlock_apply ss (Heap.reachable_sound config before), ?_,
    readText_stringText, fun s t => ⟨?_, ?_⟩, fun ss ts x y => ⟨blockText_append_inj, ?_⟩⟩
  · intro h₁ h₂ c₁ c₂ ss ts hc₁ hc₂
    have hm₁ := mold_of_texts hc₁
    have hm₂ := mold_of_texts hc₂
    refine ⟨hm₁, hm₂, ?_⟩
    rw [hm₁, hm₂]
    constructor
    · intro he
      have htext : blockText ss = blockText ts := Except.ok.inj he
      have hchars : (blockText ss).toList ++ [] = (blockText ts).toList ++ [] := by rw [htext]
      exact (blockText_append_inj hchars).1
    · rintro rfl
      rfl
  · rintro ⟨x, hx⟩
    rw [← List.append_nil (stringText .text t).toList] at hx
    exact (stringText_append_inj hx).1
  · rintro rfl
    exact List.prefix_rfl
  · rintro ⟨rfl, rfl⟩
    rfl

/-- One string that looks like two, and the two. -/
theorem texts_unambiguous_quotes : ∃ c₁ h₁ c₂ h₂,
    makeTextBlock ["a\" \"b"] (.new {}) = .ok c₁ h₁ ∧ TextBlock h₁ c₁ ["a\" \"b"] ∧
    makeTextBlock ["a", "b"] (.new {}) = .ok c₂ h₂ ∧ TextBlock h₂ c₂ ["a", "b"] ∧
    mold h₁ c₁ = .ok "[\"a^\" ^\"b\"]" ∧ mold h₂ c₂ = .ok "[\"a\" \"b\"]" ∧
    ¬ mold h₁ c₁ = mold h₂ c₂ := by
  obtain ⟨c₁, h₁, hm₁, hc₁⟩ := texts_unambiguous.1 {} [] ["a\" \"b"]
  obtain ⟨c₂, h₂, hm₂, hc₂⟩ := texts_unambiguous.1 {} [] ["a", "b"]
  obtain ⟨ht₁, ht₂, hiff⟩ := texts_unambiguous.2.1 h₁ h₂ c₁ c₂ _ _ hc₁ hc₂
  refine ⟨c₁, h₁, c₂, h₂, hm₁, hc₁, hm₂, hc₂, ht₁.trans ?_, ht₂.trans ?_, ?_⟩
  · decide +kernel
  · decide +kernel
  · rw [hiff]
    decide

end CellHeap.Render
