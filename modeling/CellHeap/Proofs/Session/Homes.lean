import CellHeap.Proofs.Heap.Handle
import CellHeap.Proofs.Session.Containment

/-!
# The handles that cells of a session name

A cell of a forward session names a buffer that its heap has issued; only the phase
in the lens of a frame is the caller's own choice. The keys of variables stand in an
issued buffer as well.
-/

set_option autoImplicit false

namespace CellHeap

namespace Heap

variable {h h' : Heap} {c d : Cell} {op : Operation} {admits : Heap → Operation → Prop}

def Homed (h : Heap) (c : Cell) : Prop := ∀ id, c.home? = some id → h.Issued id

theorem Homed.rehead (hc : h.Homed c) (hd : c.Rehead d) : h.Homed d := by
  intro id hid
  rw [Cell.home?, hd.references] at hid
  exact hc id hid

theorem homed_of_primitive (hc : c.Primitive) : h.Homed c := by
  have hnone : c.home? = none := by
    cases hc with
    | rune hc =>
      obtain ⟨_, _, rfl⟩ := Option.map_eq_some_iff.1 hc
      rfl
    | runeChar ch =>
      unfold Cell.runeChar
      cases hr : Cell.rune? (String.singleton ch) with
      | some d =>
        obtain ⟨_, _, rfl⟩ := Option.map_eq_some_iff.1 hr
        rfl
      | none => rfl
    | _ => rfl
  intro id hid
  rw [hnone] at hid
  cases hid

theorem homed_of_made (hs : h.Sound) (hx : op.perform h = .ok (.cell c) h') : h'.Homed c := by
  intro id hid
  obtain ⟨b, hb, _⟩ := isReadable_iff_liveness.1 (perform_allots op h _ h' id hs hx hid).2
  exact issued_of_buffer? hb

theorem homed_invariant (hf : Session.Forward admits) : Session.Invariant admits Homed := by
  refine Session.invariant_of_rehead ?_ Homed.rehead homed_of_primitive ?_ ?_ ?_
  · exact fun hs hstep ha hc id hid => step_issued hs (hc id hid) hstep (ha hf)
  · intro h c id i j hc hp k hk
    apply hc k
    simpa [Cell.home?, Cell.references, hp] using hk
  · intro h c v l l' hc hp k hk
    apply hc k
    cases l <;> cases l' <;> simpa [Cell.home?, Cell.references, hp] using hk
  · exact fun _ hs _ hx _ => homed_of_made hs hx

def KeysIssued (h : Heap) : Prop :=
  ∀ v b k, h.buffer? v = some b → b.keylist = some k → h.Issued k

theorem after_keysIssued (hs : h.Sound) (ha : op.Advances h) (hk : h.KeysIssued) :
    (op.after h).KeysIssued := by
  intro v b' k hb' hkey
  cases hb : h.buffer? v with
  | some b =>
    have hold : b'.keylist = some k → b.keylist = some k :=
      after_keeps (P := fun c => c.keylist = some k → b.keylist = some k)
        (fun _ _ _ hf hc hk => hc (hf.keylist_of_some hk)) op hs hb id hb'
    exact after_issued op ha hs (hk v b k hb (hold hkey))
  | none =>
    -- the variables are new, and so are their keys
    have hd := discipline_of_keylist hs hb hb' hkey
    obtain ⟨keys, hkeys, _⟩ := (variables_follow hs hd hb hb').2 k hkey
    exact issued_of_buffer? hkeys

end Heap

theorem Session.keysIssued {admits : Heap → Operation → Prop} {config : Config} {h : Heap}
    {held : List Cell} (hf : Forward admits) (hs : Session admits config h held) :
    h.KeysIssued := by
  induction hs with
  | start =>
    intro v b k hb
    cases hb
  | @perform h held op hs hop hc ih => exact Heap.after_keysIssued hs.sound (hf h op hop) ih
  | _ => assumption

end CellHeap
