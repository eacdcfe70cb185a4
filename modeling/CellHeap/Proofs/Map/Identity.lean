import CellHeap.Proofs.Cell.Header
import CellHeap.Proofs.Map.Pairlist
import CellHeap.Proofs.Series.Elements

/-!
# Which keys are one

Keys are told apart by what they show. In every heap this is symmetric and
transitive, and a key is equal to itself exactly if it can be read and holds no
NaN. Flags are never looked at. A binding is looked at in one place: a word
without a binding that stands in a sequence takes the binding of the sequence
before it is compared. So a sequence that lends its binding in this way is
another key under another binding, and every other key stays the same one.
-/

set_option autoImplicit false

namespace CellHeap

open HeapM

namespace Map

section Self

variable {h : Heap} {k : Cell} {f : Face}

def Shown (h : Heap) (k : Cell) : Prop :=
  match form k with
  | .rune => ∃ s, Strings.text h k = .ok s
  | .series => ∃ id i b, k.payload = .series id i ∧ h.read id = .ok b ∧ i ≤ b.length
  | .sequence => ∃ es, Sequence.elements h k = .ok es
  | .payload => True

def members (h : Heap) (k : Cell) : List Cell :=
  match form k with
  | .series => (Series.cellsAt h k).toOption.getD []
  | .sequence => (Sequence.elements h k).toOption.getD []
  | _ => []

def holdsNaN (h : Heap) (k : Cell) : Bool :=
  k.payload.isNaN || (members h k).any (·.payload.isNaN)

theorem shown_iff : Shown h k ↔ ∃ f, face h k = .ok f := by
  unfold Shown face
  cases hf : form k with
  | rune => cases Strings.text h k <;> simp
  | sequence => cases Sequence.elements h k <;> simp
  | payload => simp
  | series =>
    constructor
    · rintro ⟨id, i, b, hp, hr, hi⟩
      simp [Series.rest_of_checked (Series.checked_of_le hp hr hi) hi]
    · rintro ⟨f, hf⟩
      obtain ⟨s, hs, _⟩ := bind_eq_ok_iff.1 hf
      obtain ⟨⟨b, i⟩, hc, _⟩ := bind_eq_ok_iff.1 hs
      obtain ⟨id, hp, hr, hi⟩ := Series.checked_eq_ok hc
      exact ⟨id, i, b, hp, hr, hi⟩

/-- Only the last form has a payload that is a number of its own. -/
theorem isNaN_of_form (hf : form k ≠ .payload) (hk : Shown h k) : k.payload.isNaN = false := by
  cases hp : k.payload with
  | decimal d =>
    have hr : k.kind = .rune := by
      by_cases hr : k.kind = .rune
      · exact hr
      · simp [form, hr, hp] at hf
    simp [Shown, form, hr, Strings.text, Strings.runeText, hp] at hk
  | _ => rfl

theorem hasNaN_of_face (hf : face h k = .ok f) : f.hasNaN = holdsNaN h k := by
  have hshown : Shown h k := shown_iff.2 ⟨f, hf⟩
  unfold holdsNaN members
  unfold face at hf
  cases hform : form k with
  | rune =>
    rw [hform] at hf
    obtain ⟨s, _, hf⟩ := bind_eq_ok_iff.1 hf
    cases hf
    simp [Face.hasNaN, isNaN_of_form (by simp [hform]) hshown]
  | series =>
    rw [hform] at hf
    obtain ⟨s, hs, hf⟩ := bind_eq_ok_iff.1 hf
    cases hf
    rw [isNaN_of_form (by simp [hform]) hshown]
    cases s <;> simp [Face.hasNaN, Series.cellsAt, hs, Except.toOption]
  | sequence =>
    rw [hform] at hf
    obtain ⟨es, hes, hf⟩ := bind_eq_ok_iff.1 hf
    cases hf
    simp [Face.hasNaN, isNaN_of_form (by simp [hform]) hshown, hes, Except.toOption]
  | payload =>
    rw [hform] at hf
    cases hf
    simp [Face.hasNaN]

theorem keysEqual_self_iff :
    keysEqual h k k = .ok true ↔ Shown h k ∧ holdsNaN h k = false := by
  constructor
  · intro hk
    rcases keysEqual_eq_ok_iff.1 hk with ⟨_, f, g, hf, _, he⟩ | ⟨ho, _⟩
    · exact ⟨shown_iff.2 ⟨f, hf⟩, hasNaN_of_face hf ▸ Face.hasNaN_of_equals he⟩
    · exact absurd rfl ho
  · rintro ⟨hs, hn⟩
    obtain ⟨f, hf⟩ := shown_iff.1 hs
    exact keysEqual_self hf ((hasNaN_of_face hf).trans hn)

theorem keysEqual_of_decimal {a b : Cell} {x y : Binary64} (ha : a.payload = .decimal x)
    (hb : b.payload = .decimal y) (hk : a.kind = b.kind) (hl : a.lift = b.lift)
    (hs : a.sigil = b.sigil) (hr : a.kind ≠ .rune) : keysEqual h a b = .ok (x.equals y) := by
  simp [keysEqual, hk, hl, hs, hk ▸ hr, ha, hb, Payload.equals]

/-- Equality of keys is a partial equivalence in every heap. It is reflexive exactly on the keys
that can be read and hold no NaN, and numbers are equal as numbers, the two zeros included. -/
theorem keys_partial_equivalence (h : Heap) :
    (∀ a b r, keysEqual h a b = .ok r → keysEqual h b a = .ok r) ∧
    (∀ a b c, keysEqual h a b = .ok true → keysEqual h b c = .ok true →
      keysEqual h a c = .ok true) ∧
    (∀ a, keysEqual h a a = .ok true ↔ Shown h a ∧ holdsNaN h a = false) ∧
    ∀ a b x y, a.payload = .decimal x → b.payload = .decimal y → a.kind = b.kind →
      a.lift = b.lift → a.sigil = b.sigil → a.kind ≠ .rune →
      ∃ r, keysEqual h a b = .ok r ∧ (r = true ↔ x.isNaN = false ∧ y.isNaN = false ∧
        (x = y ∨ x.isZero = true ∧ y.isZero = true)) := by
  refine ⟨fun a b r => keysEqual_symm, fun a b c => keysEqual_trans,
    fun a => keysEqual_self_iff, ?_⟩
  intro a b x y ha hb hk hl hs hr
  exact ⟨_, keysEqual_of_decimal ha hb hk hl hs hr, Binary64.equals_iff⟩

/-- A rune in its cell and one in a buffer, read whole from wherever its cell stands; a sequence
in its cell and one in an array; the two zeros, and a NaN. -/
theorem keys_partial_equivalence_forms :
    let rune := Cell.runeChar 'x'
    let stored := Cell.bare .rune (.series ⟨0, 0⟩ 7)
    let tuple := Cell.bare .tuple (.sequence (.bytes ⟨[1, 2], by decide⟩))
    let array := Cell.bare .tuple (.sequence (.array ⟨1, 0⟩))
    let h := (Heap.new {}).run
      [.makeString .rune "x", .makeSequence .tuple [.integer 1, .integer 2] .never]
    (keysEqual h rune stored = .ok true ∧ keysEqual h stored rune = .ok true ∧
      keysEqual h stored stored = .ok true) ∧
    (keysEqual h tuple array = .ok true ∧ keysEqual h array tuple = .ok true) ∧
    (∃ r, keysEqual h (.decimal ⟨0⟩) (.decimal ⟨0x8000000000000000⟩) = .ok r ∧ r = true) ∧
    ¬ keysEqual h (.decimal ⟨0x7ff8000000000000⟩) (.decimal ⟨0x7ff8000000000000⟩) = .ok true := by
  intro rune stored tuple array h
  obtain ⟨hsymm, htrans, hself, hnumbers⟩ := keys_partial_equivalence h
  have hrune : keysEqual h rune stored = .ok true := by decide +kernel
  have htuple : keysEqual h tuple array = .ok true := by decide +kernel
  have hzeros := hnumbers (.decimal ⟨0⟩) (.decimal ⟨0x8000000000000000⟩) _ _ rfl rfl rfl rfl rfl
    (by decide)
  obtain ⟨r, hr, hiff⟩ := hzeros
  refine ⟨⟨hrune, hsymm _ _ _ hrune, htrans _ _ _ (hsymm _ _ _ hrune) hrune⟩,
    ⟨htuple, hsymm _ _ _ htuple⟩, ⟨r, hr, hiff.2 (by decide +kernel)⟩, ?_⟩
  rw [hself]
  rintro ⟨_, hnan⟩
  revert hnan
  decide +kernel

end Self

end Map

namespace Cell

def redress (c : Cell) (b : Option Binding) (const newline locked : Bool) : Except Fault Cell := do
  return (((← c.setBinding b).setConst const).setNewline newline).setLocked locked

structure SameValue (c d : Cell) : Prop where
  kind : d.kind = c.kind
  lift : d.lift = c.lift
  sigil : d.sigil = c.sigil
  payload : d.payload = c.payload

theorem redress_eq_ok {c d : Cell} {b : Option Binding} {x y z : Bool}
    (hd : c.redress b x y z = .ok d) : SameValue c d ∧ d.binding = b := by
  obtain ⟨e, he, hd⟩ := bind_eq_ok_iff.1 hd
  cases hd
  rw [setBinding_eq_ok he]
  exact ⟨⟨rfl, rfl, rfl, rfl⟩, rfl⟩

end Cell

namespace Map

section Dress

variable {h : Heap} {a b d : Cell}

def isLoose (e : Cell) : Bool := e.kind == .word && e.binding.isNone

def lends (h : Heap) (k : Cell) : Bool :=
  form k == .sequence && (Sequence.kept h k).toOption.any (·.any isLoose)

theorem inherit_of_loose {e : Cell} (he : isLoose e = true) (x : Option Binding) :
    Sequence.inherit x e = { e with binding := x } :=
  if_pos he

theorem inherit_of_not_loose {e : Cell} (he : isLoose e = false) (x : Option Binding) :
    Sequence.inherit x e = e :=
  if_neg (by rw [← isLoose, he]; simp)

theorem lends_eq_false_iff (hf : form a = .sequence) : lends h a = false ↔
    ∀ es, Sequence.kept h a = .ok es → ∀ e ∈ es, isLoose e = false := by
  unfold lends
  cases hk : Sequence.kept h a with
  | ok es => simp [hf, Except.toOption]
  | error e => simp [Except.toOption]

theorem lends_eq_true_iff : lends h a = true ↔ form a = .sequence ∧
    ∃ es, Sequence.kept h a = .ok es ∧ ∃ e ∈ es, isLoose e = true := by
  unfold lends
  cases hk : Sequence.kept h a with
  | ok es => simp [Except.toOption]
  | error e => simp [Except.toOption]

theorem outline_of_sameValue (hv : a.SameValue d) : outline d = outline a := by
  simp only [outline, form, hv.kind, hv.lift, hv.sigil, hv.payload]

theorem kept_of_sameValue (hv : a.SameValue d) : Sequence.kept h d = Sequence.kept h a := by
  simp only [Sequence.kept, Sequence.storage, hv.kind, hv.payload]

/-- The binding is looked at only where a word takes it. -/
theorem elements_of_sameValue (hv : a.SameValue d) (hf : form a = .sequence)
    (hb : d.binding = a.binding ∨ lends h a = false) :
    Sequence.elements h d = Sequence.elements h a := by
  have hs : Sequence.storage d = Sequence.storage a := by
    simp only [Sequence.storage, hv.kind, hv.payload]
  have hkept := kept_of_sameValue (h := h) hv
  have hat : ∀ i, Sequence.elementAt h d i = Sequence.elementAt h a i := by
    intro i
    cases hk : Sequence.kept h a with
    | error e =>
      rw [Sequence.elementAt_of_error hk, Sequence.elementAt_of_error (hkept.trans hk)]
    | ok es =>
      cases hi : es[i]? with
      | none =>
        have hle : es.length ≤ i := List.getElem?_eq_none_iff.1 hi
        rw [Sequence.elementAt_beyond hk hle, Sequence.elementAt_beyond (hkept.trans hk) hle]
      | some e =>
        rw [Sequence.elementAt_eq hk hi, Sequence.elementAt_eq (hkept.trans hk) hi]
        rcases hb with hb | hb
        · rw [hb]
        · have he := (lends_eq_false_iff hf).1 hb es hk e (List.mem_of_getElem? hi)
          rw [inherit_of_not_loose he, inherit_of_not_loose he]
  simp only [Sequence.elements, Sequence.length, hs, funext hat]

theorem face_of_sameValue (hv : a.SameValue d) (hb : d.binding = a.binding ∨ lends h a = false) :
    face h d = face h a := by
  have hform : form d = form a := by simp only [form, hv.kind, hv.payload]
  unfold face
  rw [hform]
  cases hf : form a with
  | rune =>
    simp only [Strings.text, Strings.runeText, Series.textAt, Series.rest, Series.checked,
      Series.parts, hv.kind, hv.payload]
  | series => simp only [Series.rest, Series.checked, Series.parts, hv.kind, hv.payload]
  | sequence => rw [elements_of_sameValue hv hf hb]
  | payload => rw [hv.payload]

/-- Bindings that some word takes are compared with it. -/
theorem binding_eq_of_cellsEqual {x y : Option Binding} {es : List Cell}
    (he : ∃ e ∈ es, isLoose e = true)
    (hxy : cellsEqual (es.map (Sequence.inherit x)) (es.map (Sequence.inherit y)) = true) :
    x = y := by
  induction es with
  | nil => simp at he
  | cons c es ih =>
    simp only [List.map_cons, cellsEqual, Bool.and_eq_true] at hxy
    by_cases hc : isLoose c = true
    · rw [inherit_of_loose hc, inherit_of_loose hc] at hxy
      exact (Cell.equals_iff.1 hxy.1).2.2.2.2.2
    · obtain ⟨e, hmem, hloose⟩ := he
      rcases List.mem_cons.1 hmem with rfl | hmem
      · exact absurd hloose hc
      · exact ih ⟨e, hmem, hloose⟩ hxy.2

/-- A sequence that lends its binding is another key under another binding. -/
theorem keysEqual_of_lends (hv : a.SameValue d) (hb : d.binding ≠ a.binding)
    (hl : lends h a = true) : keysEqual h a d = .ok false := by
  obtain ⟨hf, es, hes, hloose⟩ := lends_eq_true_iff.1 hl
  have hd : form d = .sequence := by simpa only [form, hv.kind, hv.payload] using hf
  have hkept := (kept_of_sameValue hv).trans hes
  have hfa : face h a = .ok (.elements (es.map (Sequence.inherit a.binding))) := by
    rw [face, hf]
    simp [Sequence.elements_eq hes]
  have hfd : face h d = .ok (.elements (es.map (Sequence.inherit d.binding))) := by
    rw [face, hd]
    simp [Sequence.elements_eq hkept]
  refine keysEqual_eq_ok_iff.2 (Or.inl ⟨(outline_of_sameValue hv).symm, _, _, hfa, hfd, ?_⟩)
  rw [← Bool.not_eq_true]
  intro he
  exact hb (binding_eq_of_cellsEqual hloose he).symm

/-- Two puts of one value under two keys go alike: both are refused with the heap as it was, both
leave the same heap, or neither key is there and each is added at the end. -/
inductive PutsAlike (h : Heap) (m a d v : Cell) : Prop
  | refused (e : Fault) (ha : put m a v h = .error e h) (hd : put m d v h = .error e h)
  | replaced (h' : Heap) (ha : put m a v h = .ok () h') (hd : put m d v h = .ok () h')
  | appended (id : BufferId) (x : Buffer) (cs : List Cell) (hf : find? h id a = .ok none)
      (hw : h.writable id = .ok x) (hx : x.contents = .cells cs)
      (ha : put m a v h = .ok () (h.setBuffer id (x.withContents (.cells (cs ++ [a, v])))))
      (hd : put m d v h = .ok () (h.setBuffer id (x.withContents (.cells (cs ++ [d, v])))))

structure SameKey (h : Heap) (a d : Cell) : Prop where
  left : ∀ c, keysEqual h d c = keysEqual h a c
  right : ∀ c, keysEqual h c d = keysEqual h c a
  get : ∀ m, get? h m d = get? h m a
  remove : ∀ m, remove m d h = remove m a h
  put : ∀ m v, PutsAlike h m a d v

theorem checkElements_of_sameValue (hv : a.SameValue d) (v : Cell) :
    Buffer.checkElements [d, v] = Buffer.checkElements [a, v] := by
  have he : d.isElement = a.isElement := by
    simp only [Cell.isElement, Cell.isAntiform, hv.lift]
  cases ha : a.isElement with
  | true => simp [Buffer.checkElements, he, ha]
  | false => simp [Buffer.checkElements, he, ha, hv.kind]

theorem find?_of_keysEqual (hd : ∀ c, keysEqual h c d = keysEqual h c a) (id : BufferId) :
    find? h id d = find? h id a := by
  simp only [find?, findFrom_congr hd]

/-- An insertion at the end of an array. -/
theorem insertCells_length (x : Buffer) (new : List Cell) : x.insertCells x.length new = (do
    x.checkResizable
    Buffer.checkElements new
    return x.withContents (.cells ((← x.array) ++ new))) := by
  unfold Buffer.insertCells
  cases hx : x.contents with
  | cells cs => simp [Buffer.array, hx, Buffer.length, Contents.length]
  | _ => simp [Buffer.array, hx]

/-- Two keys that may stand in a list alike are added at the end alike. -/
theorem putsAlike_of_absent {id : BufferId} {m v : Cell}
    (hel : Buffer.checkElements [d, v] = Buffer.checkElements [a, v])
    (hf : find? h id a = .ok none)
    (ha : put m a v h = edit id (fun x => x.insertCells x.length [a, v]) h)
    (hd : put m d v h = edit id (fun x => x.insertCells x.length [d, v]) h) :
    PutsAlike h m a d v := by
  simp only [insertCells_length, hel] at ha hd
  cases hw : h.writable id with
  | error e => exact .refused e (ha.trans (by simp [edit, hw])) (hd.trans (by simp [edit, hw]))
  | ok x =>
    cases hz : x.checkResizable with
    | error e =>
      exact .refused e (ha.trans (by simp [edit, hw, hz])) (hd.trans (by simp [edit, hw, hz]))
    | ok _ =>
      cases he : Buffer.checkElements [a, v] with
      | error e =>
        exact .refused e (ha.trans (by simp [edit, hw, hz, he]))
          (hd.trans (by simp [edit, hw, hz, he]))
      | ok _ =>
        cases hx : x.array with
        | error e =>
          exact .refused e (ha.trans (by simp [edit, hw, hz, he, hx]))
            (hd.trans (by simp [edit, hw, hz, he, hx]))
        | ok cs =>
          exact .appended id x cs hf hw (Buffer.array_eq_ok hx)
            (ha.trans (by simp [edit, hw, hz, he, hx])) (hd.trans (by simp [edit, hw, hz, he, hx]))

/-- Once the search has gone alike, the keys themselves are used in one place: a new pair. -/
theorem putsAlike_of_find? (hv : a.SameValue d) (hf : ∀ id, find? h id d = find? h id a)
    (m v : Cell) : PutsAlike h m a d v := by
  have hel := checkElements_of_sameValue hv v
  cases hm : checkMutable m with
  | error e => exact .refused e (checked_of_error hm _ h) (checked_of_error hm _ h)
  | ok id =>
    cases he : Buffer.checkElements [a, v] with
    | error e =>
      refine .refused e ?_ ?_ <;> rw [put, checked_of_ok hm]
      · exact checked_of_error he _ h
      · exact checked_of_error (hel.trans he) _ h
    | ok _ =>
      cases ho : find? h id a with
      | error e =>
        refine .refused e ?_ ?_ <;> rw [put, checked_of_ok hm]
        · rw [checked_of_ok he, reading_of_error ho]
        · rw [checked_of_ok (hel.trans he), reading_of_error ((hf id).trans ho)]
      | ok o =>
        cases o with
        | none =>
          refine putsAlike_of_absent hel ho ?_ ?_ <;> rw [put, checked_of_ok hm]
          · rw [checked_of_ok he, reading_of_ok ho]
          · rw [checked_of_ok (hel.trans he), reading_of_ok ((hf id).trans ho)]
        | some i =>
          have hset : put m a v h = edit id (·.setCell (i + 1) v) h := by
            rw [put, checked_of_ok hm, checked_of_ok he, reading_of_ok ho]
          have hset' : put m d v h = edit id (·.setCell (i + 1) v) h := by
            rw [put, checked_of_ok hm, checked_of_ok (hel.trans he),
              reading_of_ok ((hf id).trans ho)]
          cases hr : edit id (·.setCell (i + 1) v) h with
          | ok _ h' => exact .replaced h' (hset.trans hr) (hset'.trans hr)
          | error e h' =>
            cases atomic_edit id _ h e h' hr
            exact .refused e (hset.trans hr) (hset'.trans hr)

theorem sameKey_of_sameValue (hv : a.SameValue d)
    (hb : d.binding = a.binding ∨ lends h a = false) : SameKey h a d := by
  have hface := face_of_sameValue hv hb
  have houtline := outline_of_sameValue hv
  have hright : ∀ c, keysEqual h c d = keysEqual h c a := by
    intro c
    rw [keysEqual_eq, keysEqual_eq, hface, houtline]
  have hfind := find?_of_keysEqual hright
  refine ⟨?_, hright, ?_, ?_, putsAlike_of_find? hv hfind⟩
  · intro c
    rw [keysEqual_eq, keysEqual_eq, hface, houtline]
  · intro m
    simp only [get?, hfind]
  · intro m
    cases hm : checkMutable m with
    | error e => rw [Map.remove, Map.remove, checked_of_error hm, checked_of_error hm]
    | ok id =>
      rw [Map.remove, Map.remove, checked_of_ok hm, checked_of_ok hm]
      cases ho : find? h id a with
      | error e => rw [reading_of_error ((hfind id).trans ho), reading_of_error ho]
      | ok o => rw [reading_of_ok ((hfind id).trans ho), reading_of_ok ho]

/-- A key stays the same key under any flags, and under any binding that its kind admits, unless it
is a sequence that lends its binding: such a sequence is another key under another binding. -/
theorem sameKey_redress (h : Heap) {a d : Cell} {b : Option Binding} {const newline locked : Bool}
    (hd : a.redress b const newline locked = .ok d) :
    (b = a.binding ∨ lends h a = false → SameKey h a d) ∧
    (b ≠ a.binding → lends h a = true →
      keysEqual h a d = .ok false ∧ keysEqual h d a = .ok false) := by
  obtain ⟨hv, rfl⟩ := Cell.redress_eq_ok hd
  refine ⟨sameKey_of_sameValue hv, ?_⟩
  intro hb hl
  have hk := keysEqual_of_lends hv hb hl
  exact ⟨hk, keysEqual_symm hk⟩

/-- A path whose word has a binding of its own, and one whose words have none. -/
theorem sameKey_redress_paths :
    let five : Option Binding := some ⟨5, by decide⟩
    let h := (Heap.new {}).run
      [.makeSequence .path [.word ⟨0⟩, .word ⟨1⟩] .adaptive,
       .makeSequence .path [{ Cell.word ⟨0⟩ with binding := five }, .integer 1] .adaptive]
    let loose := Cell.bare .path (.sequence (.pair ⟨0, 0⟩))
    let tied := Cell.bare .path (.sequence (.pair ⟨1, 0⟩))
    (∃ d, tied.redress five true true true = .ok d ∧ d ≠ tied ∧ SameKey h tied d) ∧
    (∃ d, loose.redress none true true true = .ok d ∧ d ≠ loose ∧ SameKey h loose d) ∧
    ∃ d, loose.redress five false false false = .ok d ∧
      keysEqual h loose d = .ok false ∧ keysEqual h d loose = .ok false := by
  intro five h loose tied
  have htied : ∃ d, tied.redress five true true true = .ok d ∧ d ≠ tied := ⟨_, rfl, by decide⟩
  have hflags : ∃ d, loose.redress none true true true = .ok d ∧ d ≠ loose := ⟨_, rfl, by decide⟩
  have hloose : ∃ d, loose.redress five false false false = .ok d := ⟨_, rfl⟩
  obtain ⟨d, hd, hne⟩ := htied
  obtain ⟨e, he, hne'⟩ := hflags
  obtain ⟨f, hf⟩ := hloose
  refine ⟨⟨d, hd, hne, ?_⟩, ⟨e, he, hne', ?_⟩, ⟨f, hf, ?_⟩⟩
  · exact (sameKey_redress h hd).1 (Or.inr (by decide +kernel))
  · exact (sameKey_redress h he).1 (Or.inl rfl)
  · exact (sameKey_redress h hf).2 (by decide) (by decide +kernel)

/-- A value put under a path is not found under the same path with a binding. -/
theorem path_lost_under_binding :
    let path := Cell.bare .path (.sequence (.pair ⟨0, 0⟩))
    let bound := { path with binding := some ⟨5, by decide⟩ }
    let m := Cell.bare .map (.map ⟨1, 0⟩)
    let h := (Heap.new {}).run
      [.makeSequence .path [.word ⟨0⟩, .word ⟨1⟩] .adaptive, .makeMap [(path, .integer 1)]]
    path.setBinding (some ⟨5, by decide⟩) = .ok bound ∧
      keysEqual h path path = .ok true ∧ keysEqual h path bound = .ok false ∧
      get? h m path = .ok (some (.integer 1)) ∧ get? h m bound = .ok none := by
  decide +kernel

end Dress

end Map

end CellHeap
