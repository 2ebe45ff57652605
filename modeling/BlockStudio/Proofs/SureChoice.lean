import BlockStudio.Proofs.SureClick

/-!
# Choosing, letting go and typing without fail

What a line of an open menu stands for is done when the menu was opened for something that is there
still and one of its lines is marked.  A dragged stack is let go where the candidate says, or laid down.
A key goes into the edited slot unless something else than a text stands there (`Editor.Clogged`).
-/

namespace BlockStudio

open Forest Edit Store Editor

variable {s0 : Store} {m : Menu} {e e' : Editor} {b : BlockId} {c : Component} {globals : List Value}
  {o : MenuOption} {s : Store} {cursor : StackId} {code : Int} {i : Nat} {v : Value} {spot : Spot}

/-! ## Slots -/

/-- A slot of a block holds something. -/
theorem Editor.Calm.exists_value (h : e.Calm) (hc : (e.store.definitionOf b).inputs[i]? = some c) :
    ∃ v, e.store.slot? b i = some v :=
  (Sound.of_bare h.sound.store).exists_value hc

/-- A slot that is not for bodies is filled with something typed or chosen. -/
theorem Editor.Calm.assign (h : e.Calm) (hc : (e.store.definitionOf b).inputs[i]? = some c)
    (hk : c.kind ≠ .statement) (hv : v.Literal) {u : Unit}
    (ha : Edit.assign b i v e = .ok u e') : e'.Calm := by
  refine h.works ((moves_assign _ _ hv).ok ha) (works_assign (fun c' hc' => ?_) ha)
  cases hc.symm.trans hc'
  exact hk

/-! ## Lines of a menu -/

theorem exists_itemAt {α : Type} {l : List α} {i : Int} (hp : 0 ≤ i) (hlt : i < l.length) :
    ∃ a ∈ l, itemAt? l i = some a := by
  obtain ⟨k, rfl⟩ := Int.eq_ofNat_of_zero_le hp
  have hk : k < l.length := by omega
  refine ⟨l[k], List.getElem_mem hk, ?_⟩
  rw [itemAt?, placeIn_natCast hk]
  exact List.getElem?_eq_getElem hk

/-- Menus for slots offer variables, all others to delete and to duplicate. -/
theorem target_of_mem_optionsFor {target : MenuTarget} (h : o ∈ optionsFor globals target) :
    (o = .delete ∨ o = .duplicate) ∧ (∀ spot, target ≠ .varSlot spot) ∨ ∃ spot, target = .varSlot spot := by
  cases target with
  | varSlot spot => exact .inr ⟨spot, rfl⟩
  | block i | reporter slot =>
    refine .inl ⟨?_, by simp⟩
    simpa [optionsFor] using h

theorem ne_delete_of_varSlot (h : o ∈ optionsFor globals (.varSlot spot)) : o ≠ .delete := by
  rintro rfl
  simp [optionsFor] at h

section Menu

variable (hindex : 0 ≤ m.stackIndex) (hlt : m.stackIndex < e.workspace.length)

include hindex hlt

theorem failsOnly_menuForStack {p : Fault → Prop} : FailsOnly p (menuForStack m) e := by
  unfold menuForStack
  refine .ite (fun _ => .step rfl ?_) fun _ => .pure _
  obtain ⟨t, -, ht⟩ := exists_itemAt hindex hlt
  rw [ht]
  exact .pure _

/-- Deleting what a menu was opened for. -/
theorem sure_deleteTarget (h : e.Calm) (hme : e.menu = some m) (hk : m.Known e.store)
    (hta : ∀ spot, m.target ≠ .varSlot spot) : Sure (deleteTarget m) e := by
  have hf : m.Fits e.forest := h.steady.menu m hme
  unfold deleteTarget
  refine (failsOnly_menuForStack hindex hlt).read (reads_menuForStack m) fun whole hwh => ?_
  have hi := menuForStack_eq_ok hf.toMarks hwh
  refine .ite (fun htr => .step rfl ?_) fun hp => ?_
  · have hmm := (hi.1 htr).2
    refine sure_removeStack (List.findIdx_lt_length_of_exists ⟨m.stack, hmm, by simp⟩)
      h.steady.pictured ⟨h.sound.store, fun t ht => ?_, h.steady.pictured.eraseIdx _, h.housed,
        fun t ht => h.located t (List.mem_of_mem_eraseIdx ht), h.eased⟩
    exact h.ready.trees t (List.mem_of_mem_eraseIdx ht)
  rw [hi] at hp
  have hw := hk.target
  rcases hm : m.target with i | slot | spot <;> rw [hm] at hw <;> dsimp only at hw ⊢
  · have hr : Sure (removeBlock m.stack i) e :=
      .step rfl (.bind (.takeOut hw) fun _ _ _ => .modifyStore _)
    refine hr.bind fun _ e1 h1 => Ready.sure_redraw (Calm.ready ?_) _
    obtain rfl := removeBlock_eq_ok h1
    exact h.works (.removeBlock (fun _ => hf.stack_lt) fun _ => hf.toMarks.ne_zero hp hm)
      (.withStore (lasts_editRow ..))
  · obtain ⟨b, hb⟩ := hw
    refine .bind (.assign hb) fun _ e1 h1 => Ready.sure_redraw (Calm.ready ?_) _
    exact h.works ((moves_assign _ _ (v := .none) trivial).ok h1) (works_clear h1)
  · exact absurd hm (hta spot)

omit hindex hlt in
theorem sure_hang (h : e.Eased) (cursor : StackId) (origin : Point) : Sure (hang cursor origin) e := by
  unfold hang
  refine .step rfl (.step rfl ?_)
  refine .ofExcept_bind (h.toView _) fun _ _ => .step rfl (.step rfl ?_)
  exact .ofExcept_bind (h.gripAt _ _) fun _ _ => .modify _

/-- Duplicating what a menu was opened for. -/
theorem sure_duplicateTarget (h : e.Calm) (hk : m.Known e.store) : Sure (duplicateTarget m) e := by
  have hc : ∀ b, e.store.Lasts ((e.store.copyBlock b).2.addStack [(e.store.copyBlock b).1] none).2 :=
    fun b => (lasts_copyBlock e.store b).trans (lasts_addStack ..)
  have ho : Sure (do
      let cursor ← addStack [← copyBlock m.block] none
      let rect := ((← Edit.store).block m.block).rect
      let place ← Edit.ofExcept ((← Edit.store).stack m.stack).place
      hang cursor ⟨rect.x + place.x, rect.y + place.y⟩) e := by
    refine .step rfl (.step rfl (.step rfl (.step rfl ?_)))
    refine .ofExcept_bind ((hc m.block).located _ hk.located).place fun _ _ => ?_
    refine sure_hang ?_ _ _
    exact h.eased
  unfold duplicateTarget
  refine (failsOnly_menuForStack hindex hlt).read (reads_menuForStack m) fun whole _ => ?_
  refine .ite (fun _ => ?_) fun _ => ?_
  · refine .step rfl (.step rfl ?_)
    have hl : e.store.Lasts (e.store.copyStack m.stack).2 := lasts_addStack e.store _ _
    refine .ofExcept_bind (hl.located _ hk.located).place fun _ _ => ?_
    refine sure_hang ?_ _ _
    exact h.eased
  have hw := hk.target
  rcases hm : m.target with i | slot | spot <;> rw [hm] at hw <;> dsimp only at hw ⊢
  · exact ho
  · obtain ⟨b, hb⟩ := hw
    refine .slotValue_bind hb (.step rfl (.step rfl (.step rfl ?_)))
    refine .ofExcept_bind (h.eased.toWorld _) fun _ _ => sure_hang ?_ _ _
    exact h.eased
  · exact ho

end Menu

/-- The marked line of a menu is done. -/
theorem sure_chooseOption (h : e.Calm) (hco : e.Composed s0) (hme : e.menu = some m)
    (hma : e.Marked) (hs : e.selected ≠ -1) (hlt : m.stackIndex < e.workspace.length) :
    Sure (chooseOption m) e := by
  have hkn := hco.aware.menu m hme
  obtain ⟨-, ⟨globals, ho⟩, hle⟩ := hco.aware.lines m hme
  obtain ⟨k, hk, hkl⟩ := (hma (by simp [hme])).resolve_left hs
  obtain ⟨option, hmm, hop⟩ := exists_itemAt (l := e.options) (i := e.selected) (by omega) (by omega)
  unfold chooseOption
  refine .step rfl ?_
  rw [hop]
  dsimp only
  rw [ho] at hmm
  obtain ⟨hot, ht⟩ | ⟨spot, hsp⟩ := target_of_mem_optionsFor hmm
  · rcases hot with rfl | rfl
    · exact sure_deleteTarget hkn.index hlt h hme hkn ht
    · exact sure_duplicateTarget hkn.index hlt h hkn
  -- all other lines are about the name in a slot
  have hn := hkn.target
  rw [hsp] at hn
  obtain ⟨c, hc, hki⟩ : e.store.IsName spot.block spot.slot := hn
  obtain ⟨v, hv⟩ := h.exists_value hc
  have hm : ∀ {f : Spot → Edit Unit}, Sure (f spot) e → Sure (menuSpot m >>= f) e := by
    intro f hf
    unfold menuSpot
    rw [hsp]
    exact hf
  cases option with
  | delete => exact absurd rfl (ne_delete_of_varSlot (hsp ▸ hmm))
  | duplicate => exact sure_duplicateTarget hkn.index hlt h hkn
  | varName name =>
    refine hm (.bind (.assign hv) fun _ e1 h1 => ?_)
    have hmm : .varName name ∈ e.options := ho ▸ hmm
    have hl := literal_value_varName (h.steady.options name hmm)
    exact (h.assign hc (by simp [hki]) hl h1).ready.sure_redraw _
  | createVariable => exact hm (sure_showPrompt _ _ _)
  | renameVariable => exact hm (.slotValue_bind hv (sure_showPrompt _ _ _))
  | deleteVariable => exact hm (.slotValue_bind hv (sure_showDialog _ _ _ _ _))
  | separator => exact .pure _

/-- A button that goes down and does not choose from a menu comes to a body without a stack. -/
def Editor.PressesHollow (e : Editor) (button : Int) : Prop :=
  e.excuseDown = false ∧ (e.menu = none ∨ e.selected = -1) ∧ e.mouseInWorkspace = true ∧
    (button = 1 ∨ button = 3) ∧ ({ e with editing := false, menu := none } : Editor).StrikesHollow

/-- A mouse button goes down. -/
theorem sure_handleDown {button : Int} (h : e.Calm) (hd : e.Drawn) (hsh : e.Shown)
    (hc : e.Composed s0) (hdi : e.dialog = none) (hma : e.Marked)
    (hlt : ∀ m, e.excuseDown = false → e.menu = some m → e.selected ≠ -1 →
      m.stackIndex < e.workspace.length)
    (hh : ¬e.PressesHollow button) : Sure (handleDown button) e := by
  cases he : e.excuseDown with
  | true =>
    unfold handleDown
    exact .step rfl (.ite (fun _ => .set _) fun hf => absurd he hf)
  | false =>
  have hcl : Moves NoFile e e.shut := moves_closeMenu rfl
  have ha : Abides e e.shut := .of_parts rfl rfl rfl
  have h1 := Carries.calm ⟨hcl, ha⟩ (fun _ => False.elim) h
  have hfr : e.shut.Free := ⟨rfl, hdi, rfl⟩
  have hp : (e.menu = none ∨ e.selected = -1) → Sure (handleDown button) e := by
    intro hch
    unfold Sure FailsOnly
    rw [handleDown_press he hch]
    refine FailsOnly.step rfl (.ite (fun hmo => ?_) fun _ =>
      .ite (fun _ => sure_clickPalette h1) fun _ => .pure _)
    have hst : (button = 1 ∨ button = 3) → ¬e.shut.StrikesHollow := fun hb hst =>
      hh ⟨he, hch, hmo, hb, hst⟩
    refine .ite (fun _ => .modify _) fun _ => .ite (fun ho => ?_) fun _ =>
      .ite (fun ht => ?_) fun _ => .pure _
    · exact sure_clickWorkspace h1 hd hsh hc.closed hfr (hst (.inl ho))
    · exact sure_rightClickWorkspace h1 hd hsh (hst (.inr ht))
  rcases hm : e.menu with _ | m
  · exact hp (.inl hm)
  by_cases hs : e.selected = -1
  · exact hp (.inr hs)
  · unfold Sure FailsOnly
    rw [handleDown_choose he hm hs]
    exact (sure_chooseOption h hc hm hma hs (hlt m he hm hs)).bind
      fun _ _ _ => .modify _

/-! ## Letting go -/

/-- A store in which the workspace without the dragged stack is in order can be drawn. -/
theorem ready_withStore (h : e.Calm) (hl : e.store.Lasts s)
    (hF : Forest.Sound ⟨s.bare, e.workspace, none⟩) (hU : Forest.Unshared ⟨s.bare, e.workspace, none⟩) :
    (e.withStore s).Ready where
  sound := hF.store
  trees t ht := by
    obtain ⟨p, hp⟩ := exists_occurs_of_reached (F := ⟨s.bare, e.workspace, none⟩) (.top ht)
    exact hp.exists_tree hF hU (position_bare s)
  pictured := h.steady.pictured
  housed := hl.housed h.housed
  located t ht := hl.located t (h.located t ht)
  eased := h.eased

/-- What is joined at an end can be drawn. -/
theorem ready_spliced (h : e.Calm) {c : Candidate} (haimed : Aimed e.forest c)
    (hj : c.joint ≠ .value) (hcursor : e.cursor = some cursor) (hl : e.store.Lasts s)
    (hb : s.bare = spliced e.forest.store c.stack cursor c.above) : (e.withStore s).Ready := by
  refine ready_withStore h hl ?_ ?_ <;> rw [hb] <;>
    obtain ⟨-, hcr⟩ | (hc : Change NoFile _ _) := haimed.crown_or_change hj hcursor
  · exact h.sound.crown hcr
  · exact h.sound.change hc
  · exact h.unshared.crown h.sound hcr
  · exact h.unshared.change h.sound hc

section Join

variable {cursor : StackId} {c : Candidate} (h : e.Calm) (haimed : Aimed e.forest c)
  (hcursor : e.cursor = some cursor)

include h haimed hcursor

theorem sure_join_slot (hj : c.joint = .value) : Sure (join cursor c) e := by
  unfold join
  refine .step rfl ?_
  cases haimed with
  | ends hne => exact absurd hj hne
  | @slot w first b i comp _ hw hf hr hb hi hlt hcm hfi =>
    cases hcursor.symm.trans hw
    have hh := hf
    rw [blocksOf_forest] at hh
    obtain ⟨bs, hro⟩ := List.head?_eq_some_iff.1 hh
    rw [hj, hb, hi, hro]
    dsimp only
    have hco := lasts_copyBlock e.store first
    have hc := hcm
    rw [definitionOf_forest] at hc
    obtain ⟨v, hv⟩ := h.exists_value hc
    refine .step rfl (.bind (.assign (w := v) ?_) fun _ e1 h1 => ?_)
    · exact (retains_copyBlock e.store first).toGrown.slot? hv
    obtain ⟨-, rfl⟩ := assign_eq_ok.1 h1
    have hch : Change NoFile _ _ := change_plug hf hr hlt hcm hfi h.sound
    refine (ready_withStore h (hco.trans (lasts_setValue fun _ c' hc' hk => ?_))
      (h.sound.change hch) (h.unshared.change h.sound hch)).sure_redraw _
    -- a slot that takes a reporter is not one for a body
    rw [hco.definition_eq b (size_blocks_forest e ▸ hlt), hc] at hc'
    cases hc'
    exact absurd hk (kind_of_fits hfi).1

theorem sure_join_ends (hp : e.Poised) (hjo : c.joint ≠ .value) : Sure (join cursor c) e := by
  have he : c.blockIndex = none → e.store.blocksOf c.stack = [] := by
    cases haimed with
    | ends _ _ _ _ he => rwa [blocksOf_forest] at he
    | slot hv => exact absurd hv hjo
  have hd : ∀ {s : Store}, e.store.Lasts s → s.bare = spliced e.forest.store c.stack cursor c.above →
      Sure (redraw c.stackIndex) (e.withStore s) := fun hl hba =>
    (ready_spliced h haimed hjo hcursor hl hba).sure_redraw _
  have hl : ∀ f, e.store.Lasts (e.store.editRow c.stack f) := fun f => lasts_editRow ..
  unfold join
  refine .step rfl ?_
  rcases hj : c.joint with _ | _ | _ <;> dsimp only
  · have ha : c.blockIndex.getD 0 = c.above := by
      rw [Candidate.above, hj]
      cases c.blockIndex <;> rfl
    rw [ha]
    have hba := bare_spliced e.store c.stack cursor c.above
    refine .step rfl (.step rfl (.ite (fun hm => ?_) fun _ => hd (hl _) hba))
    -- above a stack of the workspace the place of the stack moves up
    have hlo := h.located c.stack (List.contains_iff_mem.1 hm)
    refine .step rfl (.ofExcept_bind ((hl _).located _ hlo).place fun place _ => ?_)
    refine .read reads_heldSize (failsOnly_heldSize_of_measured ?_)
      fun size _ => .step rfl ?_
    · exact hp.measured cursor hcursor
    exact hd ((hl _).trans (lasts_setPosition ..)) ((bare_setPosition _ _ _).trans hba)
  · rcases hb : c.blockIndex with _ | k <;> dsimp only
    · refine .step rfl (hd (hl _) ?_)
      have hr : e.store.editRow c.stack (· ++ e.store.blocksOf cursor) =
          spliced e.store c.stack cursor 0 := by
        apply editRow_congr
        simp [he hb]
      rw [Candidate.above, hj, hb]
      exact (congrArg Store.bare hr).trans (bare_spliced e.store c.stack cursor 0)
    · refine .step rfl (hd (hl _) ?_)
      rw [Candidate.above, hj, hb]
      exact bare_spliced e.store c.stack cursor (k + 1)
  · exact absurd hj hjo

end Join

/-- The dragged stack is joined where the candidate says, or laid down. -/
theorem sure_dropCursor (h : e.Calm) (ha : e.Aiming) (hpo : e.Poised)
    (hcursor : e.cursor = some cursor) : Sure (dropCursor cursor) e := by
  unfold dropCursor
  refine .step rfl ?_
  rcases hc : e.candidate with _ | c <;> dsimp only
  · refine h.eased.sure_heldPlace.read reads_heldPlace fun place _ => ?_
    refine .step rfl (.step rfl (Ready.sure_redraw ?_ _))
    have hpl : Change NoFile e.forest ⟨e.forest.store, e.forest.workspace ++ [cursor], none⟩ :=
      .place hcursor
    have hF := h.sound.change hpl
    have hU := h.unshared.change h.sound hpl
    have hb : (e.store.setPosition cursor place.asPosition).bare = e.forest.store :=
      bare_setPosition ..
    have hl : e.store.Lasts (e.store.setPosition cursor place.asPosition) :=
      lasts_setPosition e.store cursor place
    have hlt : cursor.index < e.store.allStacks.size :=
      size_allStacks_forest e ▸ h.sound.root_lt cursor (mem_roots.2 (.inr hcursor))
    refine ⟨?_, fun t ht => ?_, h.steady.pictured.append cursor, hl.housed h.housed, fun t ht => ?_,
      h.eased⟩
    · show (e.store.setPosition cursor place.asPosition).bare.Sound
      rw [hb]
      exact hF.store
    · show ∃ tree, (e.store.setPosition cursor place.asPosition).bare.Shows tree (.stack t)
      rw [hb]
      obtain ⟨p, hp⟩ := exists_occurs_of_reached
        (F := ⟨e.forest.store, e.forest.workspace ++ [cursor], none⟩) (.top ht)
      have htr := hp.exists_tree hF hU (position_bare e.store)
      exact htr
    · rcases List.mem_append.1 ht with ht | ht
      · exact hl.located t (h.located t ht)
      · rw [List.mem_singleton.1 ht]
        exact located_setPosition_self hlt place
  · have haimed := (ha c hc).2
    by_cases hj : c.joint = .value
    · exact sure_join_slot h haimed hcursor hj
    · exact sure_join_ends h haimed hcursor hpo hj

theorem Editor.Poised.congr (h : e.Poised) (hcursor : e'.cursor = e.cursor)
    (hs : e'.cursorSize = e.cursorSize) (hc : e'.candidate = e.candidate) : e'.Poised where
  measured := by
    rw [hcursor, hs]
    exact h.measured
  aimed := by
    rw [hc, hcursor]
    exact h.aimed

/-- A mouse button goes up. -/
theorem sure_handleUp (h : e.Calm) (ha : e.Aiming) (hpo : e.Poised) (button : Int) :
    Sure (handleUp button) e := by
  unfold handleUp
  refine h.sure_drawPalette.bind fun _ e1 hp => .step rfl ?_
  have ho := offers_drawPalette.ok hp
  have h1 := (lingers_offers ho).calm h
  have hp1 : e1.Poised := hpo.congr (congrArg Editor.cursor ho.1 :)
    (congrArg cursorSize ho.1 :) (congrArg candidate ho.1 :)
  refine .ite (fun _ => .set _) fun _ => ?_
  by_cases hb : button = 2
  · rw [if_pos hb]
    exact .step rfl (.ite (fun hon => by omega) fun _ => .pure _)
  rw [if_neg hb]
  refine .ite (fun _ => ?_) fun _ => .pure _
  rcases hcursor : e1.cursor with _ | cursor
  · exact .pure _
  · exact .ite (fun _ => (sure_dropCursor h1 (ha.offers ho) hp1 hcursor).bind
      fun _ _ _ => .modify _) fun _ => .modify _

/-! ## Typing -/

/-- A key would go into a slot for texts or for anything that holds something else than a text. -/
def Editor.Clogged (e : Editor) (code : Int) : Prop :=
  code ≠ Key.backspace.code ∧ ∃ spot c v, (e.editing = true ∧ e.edited = some spot) ∧
    (e.store.definitionOf spot.block).inputs[spot.slot]? = some c ∧ (c.kind = .text ∨ c.kind = .any) ∧
    e.store.slot? spot.block spot.slot = some v ∧ v ≠ .none ∧ ∀ text, v ≠ .text text

/-- Texts take all keys. -/
theorem reckons_typed {kind : SlotKind} {text : String}
    (h : code = Key.backspace.code ∨ (kind ≠ .text ∧ kind ≠ .any) ∨ ∃ t, v = .text t) :
    Reckons (v.typed s kind code text) := by
  unfold Value.typed
  split
  · exact .ok _
  · rename_i hc
    rcases h with hb | ⟨ht, ha⟩ | ⟨t, rfl⟩
    · exact absurd hb hc
    · split
      · contradiction
      · contradiction
      · split <;> exact .ok _
      · exact .ok _
    · split
      · exact .ok _
      · exact .ok _
      · split <;> exact .ok _
      · exact .ok _

/-- A key goes into the edited slot. -/
theorem sure_typeKey (h : e.Calm) (he : e.editing = true) (hed : e.edited = some spot)
    (hc : (e.store.definitionOf spot.block).inputs[spot.slot]? = some c) (hk : c.kind ≠ .statement)
    (hcl : ¬e.Clogged code) (text : String) : Sure (typeKey spot code text) e := by
  obtain ⟨v, hv⟩ := h.exists_value hc
  have hn := h.steady.isNode_or_literal hv
  unfold typeKey
  refine .slotValue_bind hv (.slotComponent_bind hc (.step rfl ?_))
  -- the value that is lengthened is that of the slot, or the text of the default
  have ht : ∀ {w : Value}, (w = v ∨ w.Literal ∧ v = .none) →
      (code = Key.backspace.code ∨ (c.kind ≠ .text ∧ c.kind ≠ .any) ∨ ∃ t, w = .text t) → Sure (do
        Edit.assign spot.block spot.slot (← Edit.ofExcept (w.typed e.store c.kind code text))
        redraw spot.stackIndex) e := by
    intro w hw hte
    refine .ofExcept_bind (reckons_typed hte) fun v' hv' => ?_
    refine .bind (.assign hv) fun _ e1 h1 => Ready.sure_redraw ?_ _
    rcases typed_eq_ok (hw.elim (fun hw => hw ▸ hn) fun hw => .inr hw.1) hv' with hl | rfl
    · exact (h.assign hc hk hl h1).ready
    · rcases hw with rfl | ⟨hl, -⟩
      · rw [assign_self hv] at h1
        cases h1
        exact h.ready
      · exact (h.assign hc hk hl h1).ready
  by_cases hco : code = Key.backspace.code
  · cases v with
    | none => exact ht (.inr ⟨trivial, rfl⟩) (.inl hco)
    | _ => exact ht (.inl rfl) (.inl hco)
  by_cases hp : c.kind = .text ∨ c.kind = .any
  · cases v with
    | none => exact ht (.inr ⟨trivial, rfl⟩) (.inr (.inr ⟨_, rfl⟩))
    | text t => exact ht (.inl rfl) (.inr (.inr ⟨t, rfl⟩))
    | _ => exact absurd ⟨hco, spot, c, _, ⟨he, hed⟩, hc, hp, hv, nofun, nofun⟩ hcl
  · cases v with
    | none => exact ht (.inr ⟨trivial, rfl⟩) (.inr (.inl (not_or.1 hp)))
    | _ => exact ht (.inl rfl) (.inr (.inl (not_or.1 hp)))

theorem sure_toggleProgram (h : e.Calm) : Sure toggleProgram e := by
  unfold toggleProgram
  refine .step rfl (.ite (fun _ => .step rfl (.modify _)) fun _ => ?_)
  obtain ⟨ts, hts⟩ := exists_startStacks h.filled
  rw [hts]
  refine .ofExcept_bind (Reckons.ok _) fun starts _ => ?_
  rcases starts with _ | ⟨t, rest⟩
  · exact .pure _
  · exact .set _

theorem sure_handleCommand (h : e.Calm) (code : Int) : Sure (handleCommand code) e := by
  unfold handleCommand
  refine .ite (fun _ => sure_showPrompt _ _ _) fun _ => .ite (fun _ => sure_showPrompt _ _ _)
    fun _ => .ite (fun _ => .step rfl ?_) fun _ =>
      .ite (fun _ => sure_toggleProgram h) fun _ => .pure _
  exact .ofExcept_bind (h.eased.zoom.headFor 1) fun _ _ => .modify _

/-- A key goes down. -/
theorem sure_handleKey (h : e.Calm) (hcm : e.Composed s0) (hcl : ¬e.Clogged code)
    (text : String) : Sure (handleKey code text) e := by
  unfold handleKey
  refine .step rfl ?_
  have hco : Sure (if e.devices.control then handleCommand code else pure ()) e :=
    .ite (fun _ => sure_handleCommand h code) fun _ => .pure _
  rcases hed : e.editing with _ | _
  · exact hco
  rcases he : e.edited with _ | spot
  · exact hco
  · obtain ⟨c, hc, hk⟩ := hcm.aware.edited spot he
    exact sure_typeKey h hed he hc hk hcl text

/-! ## The camera and the program -/

theorem sure_handleMotion (h : e.Eased) (d : Point) : Sure (handleMotion d) e := by
  unfold handleMotion
  refine .step rfl (.ite (fun _ => ?_) fun _ => .pure _)
  refine .ofExcept_bind (h.x.value.bind fun _ _ => h.zoom.value.bind fun _ _ =>
    (Reckons.div _ _).bind fun _ _ => .ok _) fun _ _ => .step rfl ?_
  exact .ofExcept_bind (h.y.value.bind fun _ _ => h.zoom.value.bind fun _ _ =>
    (Reckons.div _ _).bind fun _ _ => .ok _) fun _ _ => .modify _

theorem sure_handleWheel (h : e.Eased) (y : Num) : Sure (handleWheel y) e := by
  have ha : ∀ {axis : Tween Num}, axis.Eased → Reckons (wheelAxis e axis y) := fun ha =>
    ha.value.bind fun _ _ => h.zoom.value.bind fun _ _ => (Reckons.div _ _).bind fun _ _ =>
      ha.headFor _
  unfold handleWheel wheelZoom wheelPalette
  refine .step rfl (.ite (fun _ => ?_) fun _ => .pure _)
  refine .ite (fun _ => .step rfl ?_) fun _ => .ite (fun _ => ?_) fun _ => ?_
  · exact .ofExcept_bind (h.zoom.headFor _) fun _ _ => .modify _
  · refine .ite (fun _ => ?_) fun _ => ?_
    · exact .ofExcept_bind (ha h.x) fun _ _ => .modify _
    · exact .ofExcept_bind (ha h.y) fun _ _ => .modify _
  · refine .step rfl (.ofExcept_bind h.scroll.value fun _ _ => ?_)
    exact .ofExcept_bind (h.scroll.headFor _) fun _ _ => .modify _

/-- However a program ends, the editor goes on. -/
theorem sure_stepProgram (tasks : List Task) : Sure (stepProgram tasks) e := by
  unfold stepProgram
  refine .step rfl ?_
  rcases Run.step e.store .generous tasks e.scene with ⟨_ | ⟨_, _⟩, scene⟩ | ⟨exit, scene⟩
  · exact .step rfl (.modify _)
  · exact .set _
  · exact .step rfl (.modify _)

end BlockStudio
