import CellHeap.Proofs.Render.Frozen

/-!
# Expired frames

When a call is over, the variables of its frame decay. Every access to a context
looks at the list of variables first, so from then on all of them fail, through any
cell that names that list and whatever later fills its slot, as long as the
generation of the slot does not come round. The name of a frame is found without its
variables: it stands in the cell or with the phase, where no operation changes it.
-/

set_option autoImplicit false

namespace CellHeap

/-- Whether a buffer has a label, and which, is settled when it is made. -/
theorem Fate.label {op : Operation} {id : BufferId} {b b' : Buffer}
    (hf : Fate op id b (some b')) : b'.label = b.label := by
  cases hf with
  | edited _ _ _ he => rw [he.frame]
  | _ => rfl

namespace Heap

variable {h h' : Heap} {id : BufferId} {b b' : Buffer}

theorem run_label (ops : List Operation) (ha : h.Throughout Operation.Advances ops) (hs : h.Sound)
    (hb : h.read id = .ok b) (hb' : (h.run ops).read id = .ok b') : b'.label = b.label :=
  run_keeps_of_advances (P := fun c => c.label = b.label) (fun _ _ _ hf hc => hf.label.trans hc)
    ops ha hs (buffer?_of_read hb) rfl (buffer?_of_read hb')

theorem decay_lost (hs : h.Sound) (hx : decay id h = .ok () h') : h'.Lost id := by
  unfold decay at hx
  cases hb : h.buffer? id with
  | none =>
    rw [hb] at hx
    cases hx
  | some b =>
    rw [hb] at hx
    by_cases hd : b.liveness = .decayed
    · simp only [hd, if_true] at hx
      cases hx
      refine ⟨hs, issued_of_buffer? hb, ?_⟩
      simp [isReadable_iff_liveness, hb, hd]
    · simp only [hd, if_false] at hx
      cases hx
      refine ⟨sound_setBuffer hs hb _, (issued_setBuffer hb _ id).2 (issued_of_buffer? hb), ?_⟩
      simp [isReadable_iff_liveness, buffer?_setBuffer hb]

end Heap

namespace Context

variable {h : Heap} {c : Cell} {v : BufferId}

structure Unreadable (h : Heap) (c : Cell) (v : BufferId) : Prop where
  keys : keys h c = .error (.dataFreed v)
  length : length h c = .error (.dataFreed v)
  hasKey : ∀ key, hasKey h c key = .error (.dataFreed v)
  read : ∀ key, read h c key = .error (.dataFreed v)
  readMeta : ∀ key, readMeta h c key = .error (.dataFreed v)
  write : c.isConst = false → ∀ key x, write c key x h = .error (.dataFreed v) h
  writeMeta : c.isConst = false → ∀ key x, writeMeta c key x h = .error (.dataFreed v) h
  setLocked : c.isConst = false → ∀ key on, setLocked c key on h = .error (.dataFreed v) h
  /-- The key is looked for before the view is. -/
  append : ∀ key x, append c key x h = .error (.dataFreed v) h

theorem keyCells_of_released (hr : h.read v = .error (.dataFreed v)) :
    keyCells h v = .error (.dataFreed v) := by
  simp [keyCells, keylist, hr]

theorem position_of_released (hr : h.read v = .error (.dataFreed v)) (key : Symbol) :
    position h v key = .error (.dataFreed v) := by
  simp [position, position?, keyCells_of_released hr]

theorem slot_of_released (hv : varlist c = .ok v) (hr : h.read v = .error (.dataFreed v))
    (key : Symbol) : slot h c key = .error (.dataFreed v) := by
  simp [slot, hv, position_of_released hr]

theorem hasKey_of_released (hv : varlist c = .ok v) (hr : h.read v = .error (.dataFreed v))
    (key : Symbol) : Context.hasKey h c key = .error (.dataFreed v) := by
  simp [Context.hasKey, hv, position_of_released hr]

theorem modify_of_released (hv : varlist c = .ok v) (hr : h.read v = .error (.dataFreed v))
    (hc : c.isConst = false) (key : Symbol) (f : Cell → Except Fault Cell) :
    modify c key f h = .error (.dataFreed v) h := by
  unfold modify
  rw [hc]
  exact (HeapM.checked_of_ok hv _ h).trans
    (HeapM.reading_of_error (position_of_released hr key) _)

theorem unreadable_of_released (hv : varlist c = .ok v) (hr : h.read v = .error (.dataFreed v)) :
    Unreadable h c v where
  keys := by simp [keys, hv, keyCells_of_released hr]
  length := by simp [length, hv, hr]
  hasKey := hasKey_of_released hv hr
  read key := by simp [read, slot_of_released hv hr]
  readMeta key := by simp [readMeta, slot_of_released hv hr]
  write hc key x := modify_of_released hv hr hc key _
  writeMeta hc key x := modify_of_released hv hr hc key _
  setLocked hc key on := modify_of_released hv hr hc key _
  append key x := HeapM.reading_of_error (hasKey_of_released hv hr key) _

end Context

namespace Render

variable {h g : Heap} {c d : Cell} {v : BufferId} {l l' : Lens}

/-- A frame shows its label and the spelling of it. -/
theorem frame_congr (hl : Frame.label g d = Frame.label h c)
    (hs : ∀ s, Frame.label h c = .ok (some s) → g.spelling s = h.spelling s) :
    frame g d = frame h c := by
  unfold frame
  rw [hl]
  cases hx : Frame.label h c with
  | error e => rfl
  | ok o =>
    cases o with
    | none => rfl
    | some s => simp [Rendering.ofRead, hs s hx]

/-- No cell is rendered inside a frame, so any depth suffices. -/
theorem mold_of_frame (hp : c.payload = .frame v l) :
    mold h c = (level h (fun _ _ => Rendering.write "") [] c).toExcept := by
  obtain ⟨n, hn⟩ : ∃ n, depthBound h = n + 1 :=
    Nat.exists_eq_add_one.2 (Nat.mul_pos (by omega) (by omega))
  unfold mold render
  rw [hn]
  simp only [upTo, level, body, hp]

theorem mold_congr_frame (hp : c.payload = .frame v l) (hp' : d.payload = .frame v l')
    (hd : d = { c with payload := d.payload }) (hf : frame g d = frame h c) :
    mold g d = mold h c := by
  rw [mold_of_frame hp, mold_of_frame hp']
  simp only [level, body, hp, hp', hf]
  rw [hd]
  rfl

end Render

namespace Frame

variable {h g : Heap} {c d : Cell} {v p : BufferId} {l : Lens}

theorem varlist_of_payload (hp : c.payload = .frame v l) : Context.varlist c = .ok v := by
  simp [Context.varlist, hp]

theorem label_of_phase (hp : c.payload = .frame v (.phase p)) :
    label h c = (h.read p).map Buffer.label := by
  simp only [label, lens, hp, ok_bind]
  cases h.read p <;> rfl

theorem label_of_label {s : Option Symbol} (hp : c.payload = .frame v (.label s)) :
    label h c = .ok s := by
  simp [label, lens, hp]

/-- A frame keeps its label over a run, if it has it from a phase as long as that can be read. -/
theorem run_label (ops : List Operation) (ha : h.Throughout Operation.Advances ops) (hs : h.Sound)
    (hp : c.payload = .frame v l)
    (hl : ∀ p, l = .phase p → h.isReadable p = true ∧ (h.run ops).isReadable p = true) :
    label (h.run ops) c = label h c := by
  cases l with
  | label s => rw [label_of_label hp, label_of_label hp]
  | phase p =>
    obtain ⟨hr, hr'⟩ := hl p rfl
    obtain ⟨b, hb⟩ := Heap.isReadable_iff.1 hr
    obtain ⟨b', hb'⟩ := Heap.isReadable_iff.1 hr'
    rw [label_of_phase hp, label_of_phase hp, hb, hb']
    exact congrArg Except.ok (Heap.run_label ops ha hs hb hb')

theorem cacheLabel_eq_ok_iff (hp : c.payload = .frame v l) : cacheLabel h c = .ok d ↔
    ∃ s, label h c = .ok s ∧ d = { c with payload := .frame v (.label s) } := by
  simp only [cacheLabel, setLens, hp, bind_eq_ok_iff, Except.ok.injEq, eq_comm (a := d)]

/-- A label in the cell is the same in every heap, and spelt the same in every later one. -/
theorem cached_label (hp : c.payload = .frame v l) (hd : cacheLabel h c = .ok d) :
    ∃ s, label h c = .ok s ∧ d = { c with payload := .frame v (.label s) } ∧
      ∀ ops, label (h.run ops) d = .ok s ∧
        ((∀ x, s = some x → h.Interned x) → Render.mold (h.run ops) d = Render.mold h c) := by
  obtain ⟨s, hs, rfl⟩ := (cacheLabel_eq_ok_iff hp).1 hd
  refine ⟨s, hs, rfl, fun ops => ⟨label_of_label rfl, fun hn => ?_⟩⟩
  apply Render.mold_congr_frame hp rfl rfl
  apply Render.frame_congr (by rw [hs, label_of_label rfl])
  intro x hx
  rw [hs] at hx
  exact (Heap.run_grown h ops).spelling x (hn x (Except.ok.inj hx))

/-- After a frame of a reachable heap has expired, every access to its variables, through any cell
that shares them, fails for want of them in every later state of a run that advances. Its label and
its rendering are what they were, without a condition if the label stands in the frame, and else
for as long as the phase can be read. Once the label is cached, it is there in every later state. -/
theorem expired_frame_named (config : Config) (before : List Operation) (f : Cell) (v : BufferId)
    (l : Lens) (hp : f.payload = .frame v l)
    (hn : ∀ s, label ((Heap.new config).run before) f = .ok (some s) →
      ((Heap.new config).run before).Interned s)
    (h₁ : Heap) (hx : expire f ((Heap.new config).run before) = .ok () h₁)
    (rest : List Operation) (hrest : h₁.Throughout Operation.Advances rest) :
    let h := (Heap.new config).run before
    let g := h₁.run rest
    (∀ c, Context.varlist c = .ok v → Context.Unreadable g c v) ∧
    ((∀ p, l = .phase p → h.isReadable p = true ∧ g.isReadable p = true) →
      label g f = label h f ∧ Render.mold g f = Render.mold h f) ∧
    ∀ k f', cacheLabel k f = .ok f' →
      ∃ s, label k f = .ok s ∧ f' = { f with payload := .frame v (.label s) } ∧
        ∀ later, label (k.run later) f' = .ok s ∧
          ((∀ x, s = some x → k.Interned x) →
            Render.mold (k.run later) f' = Render.mold k f) := by
  intro h g
  have hs : h.Sound := Heap.reachable_sound config before
  have hafter : (Operation.expireFrame f).after h = h₁ := by
    rw [after_of_silent (x := expire f) rfl, HeapM.after_of_ok hx]
  have hrun : g = h.run (.expireFrame f :: rest) := by rw [Heap.run_cons, hafter]
  refine ⟨fun c hc => ?_, fun hl => ?_, fun k f' => cached_label hp⟩
  · obtain ⟨v', hv', hdecay⟩ := HeapM.of_checked hx
    cases (varlist_of_payload hp).symm.trans hv'
    have hlost := Heap.run_lost rest hrest (Heap.decay_lost hs hdecay)
    exact Context.unreadable_of_released hc (Heap.read_of_not_readable hlost.unreadable)
  · rw [hrun] at hl ⊢
    have hforward : h.Throughout Operation.Advances (.expireFrame f :: rest) :=
      ⟨Operation.advances rfl h, hafter ▸ hrest⟩
    have hlabel := run_label (.expireFrame f :: rest) hforward hs hp hl
    have hframe := Render.frame_congr hlabel fun s hs' =>
      (Heap.run_grown h (.expireFrame f :: rest)).spelling s (hn s hs')
    exact ⟨hlabel, Render.mold_congr_frame hp hp rfl hframe⟩

/-- The slot of the variables is filled again and stays shut to the frame and to a cell that shares
them. The name comes from the phase, and from the frame once the phase is swept too. -/
theorem expired_frame_named_reused :
    let f := Cell.bare .frame (.frame ⟨2, 0⟩ (.phase ⟨0, 0⟩))
    let shared := Cell.bare .object (.context ⟨2, 0⟩)
    let cached := Cell.bare .frame (.frame ⟨2, 0⟩ (.label (some ⟨0⟩)))
    let h := (Heap.new {}).run [.intern "go", .makePhase (some ⟨0⟩) [],
      .makeFrame [(⟨0⟩, .blank)] (.phase ⟨0, 0⟩)]
    let h₁ := (expire f).after h
    let g := h₁.run [.sweep fun id => id.index == 0, .makeContext .object [], .intern "on"]
    let swept := g.run [.sweep fun _ => false]
    expire f h = .ok () h₁ ∧ g.isReadable ⟨2, 1⟩ = true ∧ g.isReadable ⟨0, 0⟩ = true ∧
      Context.Unreadable g shared ⟨2, 0⟩ ∧ label g f = .ok (some ⟨0⟩) ∧
      Render.mold g f = .ok "#[frame! go]" ∧ cacheLabel g f = .ok cached ∧
      label swept f = .error (.dataFreed ⟨0, 0⟩) ∧ label swept cached = .ok (some ⟨0⟩) := by
  intro f shared cached h h₁ g swept
  have hexpire : expire f h = .ok () h₁ := HeapM.eq_ok_after (by decide +kernel)
  have hname : label h f = .ok (some ⟨0⟩) := by decide +kernel
  have hinterned : ∀ s, label h f = .ok (some s) → h.Interned s := by
    intro s hs
    cases hname.symm.trans hs
    have hsize : 0 < h.symbols.size := by decide +kernel
    exact hsize
  have hforward : h.Throughout Operation.Advances [.expireFrame f, .sweep fun id => id.index == 0,
      .makeContext .object [], .intern "on"] :=
    ((Heap.throughout_append _ _).1 (Heap.advances_of_length {} (_ ++ _) (by decide))).2
  have hafter : (Operation.expireFrame f).after h = h₁ := after_of_silent rfl h
  obtain ⟨hshut, hkept, hcached⟩ := expired_frame_named {} _ f ⟨2, 0⟩ _ rfl hinterned h₁ hexpire
    [.sweep fun id => id.index == 0, .makeContext .object [], .intern "on"] (hafter ▸ hforward.2)
  have hphase : h.isReadable ⟨0, 0⟩ = true ∧ g.isReadable ⟨0, 0⟩ = true := by decide +kernel
  obtain ⟨hlabel, hmold⟩ := hkept fun p hp => by
    cases hp
    exact hphase
  have hcache : cacheLabel g f = .ok cached := by decide +kernel
  obtain ⟨s, hs, _, hlater⟩ := hcached g cached hcache
  obtain rfl : s = some ⟨0⟩ := Except.ok.inj (hs.symm.trans (hlabel.trans hname))
  exact ⟨hexpire, by decide +kernel, hphase.2, hshut shared rfl, hs,
    hmold.trans (by decide +kernel), hcache, by decide +kernel, (hlater _).1⟩

end Frame

end CellHeap
