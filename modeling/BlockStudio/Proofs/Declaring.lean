import BlockStudio.Proofs.Refreshing
import BlockStudio.Proofs.Tidy

/-!
# Declared variables, step by step

`Editor.Declares` is what the editor keeps so that every slot for a variable that can be reached holds
nothing or a declared name.  The live blocks and stacks are those of the workspace, what is dragged and
what a menu was opened for; the lines of an open menu name declared variables only, the edited slot is
not one for a variable, and no menu stays open while it is asked whether a variable is to be renamed or
deleted.  Here is what clicks, menus, dragging and typing do to it; only the lines of menus need care,
since a name that counts as false is not what is chosen.
-/

namespace BlockStudio

open Forest Editor Store Edit List

variable {α : Type} {live live' : Value → Prop} {e e' : Editor} {i : Nat} {u : Unit} {b id : BlockId}
  {t : StackId} {s : Store} {r : Rendering} {p : Point} {detach : Edit Unit} {m : Menu} {v : Value}
  {fuel : Nat} {hit : Bool} {button : Int}

/-- A question after whose answer a name may be gone. -/
def Purpose.Removes : Purpose → Prop
  | .renameVariable _ | .deleteVariable _ => True
  | _ => False

/-- What declared variables depend on. -/
def Editor.board (e : Editor) : Forest × (List Value × Option Menu × List MenuOption) ×
    Option Spot × Option (Dialog × Purpose) :=
  (e.forest, e.desk, e.edited, e.dialog)

/-- What is live has declared names in its slots for variables. -/
structure Editor.Declares (e : Editor) (live : Value → Prop) : Prop where
  tidy : e.forest.store.Tidy (· ∈ e.globals) live
  texts : ∀ v ∈ e.globals, ∃ x, v = .text x
  roots : ∀ t ∈ e.forest.roots, live (.stack t)
  menu : ∀ m, e.menu = some m → live (.stack m.stack) ∧ live (.block m.block) ∧
    ∀ v, .varName v ∈ e.options → v ∈ e.globals
  edited : ∀ spot, e.edited = some spot → spot.block.index < e.forest.store.blocks.size ∧
    ¬e.forest.store.IsName spot.block spot.slot
  asked : ∀ d purpose, e.dialog = some (d, purpose) → purpose.Removes → e.menu = none

/-- Some blocks and stacks are live. -/
def Editor.Declared (e : Editor) : Prop := ∃ live, e.Declares live

theorem Editor.board_eq : e'.board = e.board ↔ e'.forest = e.forest ∧ e'.globals = e.globals ∧
    e'.menu = e.menu ∧ e'.options = e.options ∧ e'.edited = e.edited ∧ e'.dialog = e.dialog := by
  simp [board, desk, and_assoc]

theorem Editor.Declares.congr (h : e.Declares live) (hb : e'.board = e.board) : e'.Declares live := by
  obtain ⟨hF, hg, hm, ho, he, hd⟩ := board_eq.1 hb
  constructor
  · rw [hF, hg]
    exact h.tidy
  · rw [hg]
    exact h.texts
  · rw [hF]
    exact h.roots
  · rw [hm, ho, hg]
    exact h.menu
  · rw [hF, he]
    exact h.edited
  · rw [hm, hd]
    exact h.asked

theorem Editor.Declared.congr (h : e.Declared) (hb : e'.board = e.board) : e'.Declared :=
  h.imp fun _ h => h.congr hb

theorem board_of_unseen (h : e'.unseen = e.unseen) : e'.board = e.board := by
  refine board_eq.2 ⟨?_, (congrArg globals h :), (congrArg menu h :),
    (congrArg options h :), (congrArg edited h :), (congrArg dialog h :)⟩
  have hw : e'.workspace = e.workspace := (congrArg Editor.workspace h :)
  have hc : e'.cursor = e.cursor := (congrArg Editor.cursor h :)
  rw [forest, forest, bare_of_unseen h, hw, hc]

theorem board_redraw {i : Int} (h : redraw i e = .ok u e') : e'.board = e.board :=
  board_of_unseen ((displays_redraw i).ok h)

theorem board_takeGrip {i : Int} (h : takeGrip i p e = .ok u e') : e'.board = e.board := by
  obtain ⟨e1, _, hd, rfl⟩ := takeGrip_cases h
  have hb := board_redraw hd
  exact hb

theorem Pictures.board {m : Edit α} (h : Pictures m) : Keeps (Same board) m :=
  h.displays.mono fun _ _ => board_of_unseen

theorem Offers.board_eq (h : Offers e e') : e'.board = e.board := by
  refine Editor.board_eq.2 ⟨h.forest_eq, (congrArg Editor.globals h.1 :),
    (congrArg menu h.1 :), (congrArg options h.1 :), (congrArg edited h.1 :),
    (congrArg dialog h.1 :)⟩

theorem board_of_core (hc : e'.core = e.core) (hf : e'.focus = e.focus) :
    e'.board = e.board := by
  simp only [focus, Prod.mk.injEq] at hf
  exact board_eq.2 ⟨congrArg Core.forest hc, congrArg Core.globals hc,
    congrArg Core.menu hc, congrArg Core.options hc, hf.2.1, hf.2.2⟩

/-! ## Changes of the forest -/

namespace Editor

variable (h : e.Declares live)
include h

/-- The forest changes, and all else stays. -/
theorem Declares.change {F : Forest} (hb : e'.board = (F, e.desk, e.edited, e.dialog))
    (ht : F.store.Tidy (· ∈ e.globals) live') (hl : ∀ v, live v → live' v)
    (hs : e.forest.store.Stays F.store) (hr : ∀ t ∈ F.roots, live' (.stack t)) :
    e'.Declares live' := by
  simp only [board, desk, Prod.mk.injEq] at hb
  obtain ⟨hF, ⟨hg, hme, ho⟩, he, hd⟩ := hb
  constructor
  · rw [hF, hg]
    exact ht
  · rw [hg]
    exact h.texts
  · rw [hF]
    exact hr
  · rw [hme, ho, hg]
    exact fun m hm => ⟨hl _ (h.menu m hm).1, hl _ (h.menu m hm).2.1, (h.menu m hm).2.2⟩
  · rw [hF, he]
    intro spot hsp
    obtain ⟨hlt, hn⟩ := h.edited spot hsp
    refine ⟨hlt.trans_le hs.blocks_le, ?_⟩
    rwa [IsName, hs.definition_eq _ hlt]
  · rw [hme, hd]
    exact h.asked

/-- A slot is filled. -/
theorem Declares.fill (hv : v.Literal)
    (hn : e.forest.store.IsName b i → v = .none ∨ v ∈ e.globals) :
    (e.withStore (e.store.setValue b i v)).Declares live := by
  have hb : (e.store.setValue b i v).bare = e.forest.store.setValue b i v := bare_setValue ..
  refine h.change (F := ⟨e.forest.store.setValue b i v, e.workspace, e.cursor⟩) ?_
    (h.tidy.setValue (fun hno => absurd hno hv.not_isNode) hn) (fun _ => id) (stays_setValue ..) h.roots
  rw [← hb]
  rfl

theorem Declares.assign (ha : assign b i v e = .ok u e') (hv : v.Literal)
    (hn : e.forest.store.IsName b i → v = .none ∨ v ∈ e.globals) : e'.Declares live :=
  (assign_eq_ok.1 ha).2 ▸ h.fill hv hn

/-- A row changes and shows live blocks after it, if its stack is live. -/
theorem Declares.editRow (hs : e.core.Steady) (ht : t.index < e.forest.store.allStacks.size)
    {f : List BlockId → List BlockId}
    (hf : live (.stack t) → ∀ b ∈ f (e.forest.store.blocksOf t), live (.block b))
    (hb : s.bare = e.forest.store.editRow t f) : (e.withStore s).Declares live := by
  refine h.change (F := ⟨e.forest.store.editRow t f, e.workspace, e.cursor⟩) ?_
    (h.tidy.editRow hs.forest.store ht hf) (fun _ => id) ⟨le_rfl, fun _ _ => rfl⟩ h.roots
  rw [← hb]
  rfl

/-- Stacks go out of the workspace. -/
theorem Declares.eraseIdx (k : Nat) (renderings : List (Option Rendering)) :
    ({ e with workspace := e.workspace.eraseIdx k, renderings := renderings } : Editor).Declares
      live := by
  refine h.change (F := ⟨e.forest.store, e.workspace.eraseIdx k, e.cursor⟩) rfl h.tidy (fun _ => id)
    (.refl _) fun t ht => h.roots t (mem_roots.2 ?_)
  exact (mem_roots.1 ht).imp_left mem_of_mem_eraseIdx

theorem Declares.removeStack {k : Nat} (hr : removeStack k e = .ok u e') : e'.Declares live :=
  (h.eraseIdx k _).congr (board_redraw (removeStack_eq_ok hr))

/-- Something that is live or new hangs on the mouse. -/
theorem Declares.hang (hb : e'.board = (⟨s, e.workspace, some t⟩, e.desk, e.edited, e.dialog))
    (hti : s.Tidy (· ∈ e.globals) live') (hl : ∀ v, live v → live' v)
    (hs : e.forest.store.Stays s) (ht : live' (.stack t)) : e'.Declares live' := by
  refine h.change hb hti hl hs fun u hu => ?_
  rcases mem_roots.1 hu with hu | hu
  · exact hl _ (h.roots u (workspace_subset_roots hu))
  · cases hu
    exact ht

/-- A copy of a live stack hangs on the mouse. -/
theorem Declares.hangStack (hs : e.core.Steady) (ht : live (.stack t))
    (hb : e'.board = (⟨(e.store.copyStack t).2.bare, e.workspace, some (e.store.copyStack t).1⟩,
      e.desk, e.edited, e.dialog)) : e'.Declared := by
  have hba : (e.store.copyStack t).2.bare = (e.forest.store.copyStack t).2 := bare_copyStack _ _
  have hn : (e.store.copyStack t).1 = ⟨e.forest.store.allStacks.size⟩ := by
    simp [Store.copyStack, Store.addStack, forest]
  rw [hba, hn] at hb
  obtain ⟨hsp, -⟩ := copiesStack hs.forest.store hs.forest.store (.refl _)
    (h.tidy.stack_lt t ht)
  refine ⟨_, h.hang hb (h.tidy.copyStack hs.forest.store ht) (fun _ => .inl)
    hsp.grown.toStays (.inr ⟨le_rfl, ?_⟩)⟩
  simp [Store.copyStack]

/-- A new block with only names in it hangs on the mouse. -/
theorem Declares.hangBlock (hs : e.core.Steady) {src : Store}
    (hsp : Sprouts src e.forest.store s.bare [.block b])
    (hbr : Brings (· ∈ e.globals) live e.forest.store s.bare)
    (hb : e'.board = (⟨(s.addStack [b] none).2.bare, e.workspace, some ⟨s.allStacks.size⟩⟩,
      e.desk, e.edited, e.dialog)) : e'.Declared := by
  rw [bare_addStack, ← size_allStacks_bare] at hb
  have hg := hsp.grown.trans (grown_addStack _ [b] none)
  refine ⟨_, h.hang hb (h.tidy.hold hs.forest.store hsp hbr) (fun _ => .inl) hg.toStays
    (.inr ⟨hsp.grown.stacks_le, ?_⟩)⟩
  simp

/-- A copy of a live block hangs on the mouse. -/
theorem Declares.hangCopy (hs : e.core.Steady) (hl : live (.block b))
    (hb : e'.board = (⟨((e.store.copyBlock b).2.addStack [(e.store.copyBlock b).1] none).2.bare,
      e.workspace, some ⟨(e.store.copyBlock b).2.allStacks.size⟩⟩, e.desk, e.edited, e.dialog)) :
    e'.Declared := by
  have hS : e.forest.store.Sound := hs.forest.store
  have hc : e.forest.store.copyBlock b =
      ((e.store.copyBlock b).1, (e.store.copyBlock b).2.bare) := copyBlock_bare _ b
  have hsp := (hS.copyBlock (h.tidy.block_lt b hl)).sprouts
  have hbr := brings_copyBlock hS h.tidy hl
  rw [hc] at hsp hbr
  exact h.hangBlock hs hsp hbr hb

/-! ## Clicks -/

theorem Declares.live_row (ht : live (.stack t)) (hb : b ∈ e.store.blocksOf t) : live (.block b) :=
  h.tidy.row t b ht (by rwa [blocksOf_forest])

theorem Declares.live_slot (b : BlockId) (i : Nat) (c : BlockId) (hb : live (.block b))
    (hs : e.store.slot? b i = some (.block c)) : live (.block c) :=
  h.tidy.slot b i _ hb ((slot?_forest ..).trans hs) trivial

/-- A slot that is hit in a live stack belongs to a live block. -/
theorem Declares.live_hit {stackIndex : Int} {spot : Spot} (hr : live (.stack r.stack))
    (hh : hitIn r stackIndex e = .ok (some (.spot id spot)) e') : live (.block spot.block) := by
  obtain ⟨hid, _, _, _, hs⟩ := within_of_hitIn hh
  exact (along_spotAtTo h.live_slot (h.live_row hr hid) hs).1

theorem Declares.pickBlocks (hs : e.core.Steady) (hg : Grasp e.forest r.stack detach)
    (hr : live (.stack r.stack)) (hp : pickBlocks r detach i id e = .ok p e') : e'.Declared := by
  rcases pickBlocks_cases hp with ⟨-, hd⟩ | ⟨-, rfl⟩
  · have hh : (e.withCursor (e.store.copyStack r.stack).2 (e.store.copyStack r.stack).1).Declared :=
      h.hangStack hs hr rfl
    obtain ⟨live1, h1⟩ := hh
    cases hg with
    | top => exact ⟨live1, h1.removeStack hd⟩
    | body => exact ⟨live1, h1.assign hd trivial fun _ => .inl rfl⟩
  · refine ⟨_, h.hang (s := cut e.forest.store r.stack i) (t := ⟨e.forest.store.allStacks.size⟩) ?_
      (h.tidy.cut hs.forest.store hr i) (fun _ => .inl) ⟨le_rfl, fun _ _ => rfl⟩ (.inr rfl)⟩
    rw [← bare_cut, size_allStacks_forest]
    rfl

theorem Declares.pickReporter (hs : e.core.Steady) (hid : live (.block id)) {slot : Nat}
    {path : List Nat} (hp : pickReporter r id slot path e = .ok p e') : e'.Declared := by
  obtain ⟨ho, last, chosen, hh, hsl, ha⟩ := pickReporter_cases hp
  have hl := along_holder (q := fun b => live (.block b)) h.live_slot hid slot path
  rw [hh] at hl
  have hc := h.live_slot ho last chosen hl hsl
  have hhu : (e.withCopy chosen).Declared := h.hangCopy hs hc rfl
  obtain ⟨live1, h1⟩ := hhu
  exact ⟨live1, h1.assign ha trivial fun _ => .inl rfl⟩

/-- A menu is opened for something that is live. -/
theorem Declares.openMenu (hdi : e.dialog = none) (hs : live (.stack m.stack))
    (hb : live (.block m.block)) (hop : openMenu m e = .ok u e') : e'.Declares live := by
  obtain ⟨e1, _, _, hi, -, rfl⟩ := openMenu_cases hop
  have ho : Declares { e with
      menu := some m, options := optionsFor e.globals m.target } live := by
    refine { h with menu := ?_, asked := fun d purpose hd => ?_ }
    · intro m' hm'
      cases hm'
      exact ⟨hs, hb, fun v => mem_of_optionsFor⟩
    · cases hdi.symm.trans hd
  have hbo : e1.board = _ := (congrArg board hi :)
  exact ho.congr hbo

/-- Clicking on a live stack. -/
theorem Declares.clickTo (hs : e.core.Steady) (hdi : e.dialog = none) {i : Int}
    (hgr : Grasp e.forest r.stack detach) (hr : live (.stack r.stack))
    (hcl : clickTo fuel r i detach e = .ok hit e') : e'.Declared := by
  induction fuel generalizing r detach hit e e' with
  | zero => exact (pure_eq_ok.1 hcl).2 ▸ ⟨live, h⟩
  | succ fuel ih =>
    cases clickTo_eq_ok hcl with
    | miss => exact ⟨live, h⟩
    | block hid hp hg => exact (h.pickBlocks hs hgr hr hp).congr (board_takeGrip hg)
    | reporter hid hp hg =>
      exact (h.pickReporter hs (h.live_row hr hid) hp).congr (board_takeGrip hg)
    | @flip spot v c _ _ hc hk ha hd =>
      refine ⟨live, (h.assign ha trivial fun hna => ?_).congr (board_redraw hd)⟩
      obtain ⟨c', hc', hk'⟩ := hna
      rw [definitionOf_forest, hc] at hc'
      cases hc'
      cases hk.symm.trans hk'
    | @body _ spot b hit e1 e2 _ hh hbo hn hd =>
      obtain ⟨hsl, hco⟩ := renderBody_eq_ok hbo
      have hb : e1.board = e.board :=
        board_of_core hco (congrArg Prod.fst (frame_renderBody hbo).1)
      have h1 := h.congr hb
      have hl := h1.tidy.slot _ _ _ (h.live_hit hr hh) hsl trivial
      have hd1 : e1.dialog = none := (board_eq.1 hb).2.2.2.2.2.trans hdi
      exact (ih h1 (hco ▸ hs) hd1 (.body hsl) hl hn).congr (board_redraw hd)
    | choose hid _ ho hd =>
      exact ⟨live, (h.openMenu hdi hr (h.live_row hr hid) ho).congr (board_redraw hd)⟩
    | @edit spot c _ hsp hc hk hd =>
      refine ⟨live, Declares.congr ?_ (board_redraw hd)⟩
      refine { h with edited := fun spot' hs' => ?_ }
      cases hs'
      rw [← definitionOf_forest] at hc
      refine ⟨lt_of_inputs hc, fun ⟨c', hc', hk'⟩ => hk.1 ?_⟩
      cases hc.symm.trans hc'
      exact hk'

/-- Clicking on a live stack with the right button. -/
theorem Declares.rightClickTo (hd : e.dialog = none) {i : Int}
    (hr : live (.stack r.stack)) (hc : rightClickTo fuel r i e = .ok hit e') :
    e'.Declares live := by
  induction fuel generalizing r hit e e' with
  | zero => exact (pure_eq_ok.1 hc).2 ▸ h
  | succ fuel ih =>
    cases rightClickTo_eq_ok hc with
    | miss | slot => exact h
    | block hid ho => exact h.openMenu hd hr (h.live_row hr (mem_of_getElem? hid)) ho
    | reporter hid _ ho =>
      exact h.openMenu hd hr
        (along_holder (q := fun b => live (.block b)) h.live_slot (h.live_row hr hid) ..) ho
    | body hh hbo hn =>
      obtain ⟨hs, hco⟩ := renderBody_eq_ok hbo
      have hb := board_of_core hco (congrArg Prod.fst (frame_renderBody hbo).1)
      have h1 := h.congr hb
      have hl := h1.tidy.slot _ _ _ (h.live_hit hr hh) hs trivial
      exact ih h1 ((board_eq.1 hb).2.2.2.2.2.trans hd) hl hn

theorem Declares.live_rendering (hs : e.core.Steady) (hr : e.renderings[i]? = some (some r)) :
    live (.stack r.stack) :=
  h.roots _ (workspace_subset_roots (mem_of_getElem? (hs.pictured.stack_eq i r hr)))

theorem Declares.clickWorkspace (hs : e.core.Steady) (hd : e.dialog = none)
    (hc : clickWorkspace e = .ok u e') : e'.Declared := by
  rcases clickWorkspace_eq_ok hc with hdr | ⟨r, i, hr, hc⟩
  · exact ⟨live, h.congr (board_redraw hdr)⟩
  · exact h.clickTo hs hd (.top (hs.pictured.stack_eq i r hr)) (h.live_rendering hs hr) hc

theorem Declares.rightClickWorkspace (hs : e.core.Steady) (hd : e.dialog = none)
    (hc : rightClickWorkspace e = .ok u e') : e'.Declared := by
  rcases rightClickWorkspace_eq_ok hc with hdr | ⟨r, i, hr, hc⟩
  · exact ⟨live, h.congr (board_redraw hdr)⟩
  · exact ⟨live, h.rightClickTo hd (h.live_rendering hs hr) hc⟩

theorem Declares.clickPalette (hs : e.core.Steady) (hc : clickPalette e = .ok u e') :
    e'.Declared := by
  cases clickPalette_cases hc with
  | nothing => exact ⟨live, h⟩
  | category _ hd =>
    have hbo := (offers_drawPalette.ok hd).board_eq
    exact ⟨live, h.congr hbo⟩
  | @block item _ hi =>
    have hb : (e.store.addBlock item.definition (replicate item.definition.countInputs
        .none)).2.bare = _ := bare_addBlock ..
    obtain ⟨hsp, -⟩ := sprouts_unfilled (s := e.forest.store) hs.forest.store (hs.palette item hi)
    rw [size_blocks_forest] at hsp
    refine h.hangBlock hs (hb ▸ hsp) ?_ rfl
    rw [hb]
    exact (Brings.refl _).addBlock fun i c v _ _ hv =>
      .inl (eq_of_mem_replicate (mem_of_getElem? hv))

/-! ## Menus -/

/-- The menu may close, and dialogs come and go. -/
theorem Declares.turn (menu : Option Menu) (dialog : Option (Dialog × Purpose))
    (hb : e'.board = (e.forest, (e.globals, menu, e.options), e.edited, dialog))
    (hme : menu = none ∨ menu = e.menu)
    (ha : ∀ d purpose, dialog = some (d, purpose) → purpose.Removes → menu = none) :
    e'.Declares live := by
  simp only [board, desk, Prod.mk.injEq] at hb
  obtain ⟨hF, ⟨hg, rfl, ho⟩, he, rfl⟩ := hb
  constructor
  · rw [hF, hg]
    exact h.tidy
  · rw [hg]
    exact h.texts
  · rw [hF]
    exact h.roots
  · rw [ho, hg]
    intro m hm
    rcases hme with hn | hs
    · cases hn.symm.trans hm
    · exact h.menu m (hs ▸ hm)
  · rw [hF, he]
    exact h.edited
  · exact ha

theorem Declares.closed : e.shut.Declares live :=
  h.turn none e.dialog rfl (.inl rfl) fun _ _ _ _ => rfl

omit h in
theorem Declared.closed (h : e.Declared) : e.shut.Declared := h.imp fun _ h => h.closed

/-- A dialog is shown. -/
theorem Declares.poses {purpose : Purpose} (hp : Poses purpose e e')
    (hm : purpose.Removes → e.menu = none) : e'.Declares live := by
  obtain ⟨d, e1, hi, rfl⟩ := hp
  refine h.turn e.menu (some (d, purpose)) ?_ (.inr rfl) fun d' purpose' hd hr => ?_
  · exact (congrArg (fun u : Editor => board { u with dialog := some (d, purpose) }) hi :)
  · cases hd
    exact hm hr

/-- Choosing a line of the open menu; a line with a name is chosen only if the name counts as true. -/
theorem Declares.chooseOption (hs : e.core.Steady) (hm : e.menu = some m)
    (ht : ∀ v, itemAt? e.options e.selected = some (.varName v) → v.truth = true)
    (hc : chooseOption m e = .ok u e') : e'.shut.Declared := by
  obtain ⟨hst, hbl, hop⟩ := h.menu m hm
  cases chooseOption_cases hc with
  | nothing => exact ⟨live, h.closed⟩
  | removeStack _ hd => exact ⟨live, ((h.eraseIdx _ _).congr (board_redraw hd)).closed⟩
  | removeBlock _ _ hd =>
    refine ⟨live, Declares.closed (Declares.congr ?_ (board_redraw hd))⟩
    refine h.editRow hs (hs.menu m hm).stack_lt (fun hl b hb => ?_) (bare_editRow ..)
    exact h.tidy.row _ b hl (mem_of_mem_eraseIdx hb)
  | clear _ ha hd =>
    exact ⟨live, ((h.assign ha trivial fun _ => .inl rfl).congr (board_redraw hd)).closed⟩
  | copyStack => exact (h.hangStack hs hst rfl).closed
  | @copyBlock b _ _ hb =>
    have hl : live (.block b) := by
      rcases hb with ⟨rfl, -⟩ | ⟨i, hsl⟩
      · exact hbl
      · exact h.live_slot m.block i b hbl hsl
    exact (h.hangCopy hs hl rfl).closed
  | @name v _ _ _ ho _ ha hd =>
    have hv : (MenuOption.varName v).value = v := if_pos (ht v ho)
    have hde := hop v (mem_of_itemAt? ho)
    rw [hv] at ha
    refine ⟨live, Declares.closed (Declares.congr ?_ (board_redraw hd))⟩
    exact h.assign ha (hs.globals v hde) fun _ => .inr hde
  | create _ hp | remove _ _ _ hp => exact ⟨live, h.closed.poses hp.closed fun _ => rfl⟩

/-- A mouse button goes down. -/
theorem Declares.handleDown (hs : e.core.Steady) (hd : e.dialog = none)
    (ht : e.excuseDown = false → e.menu ≠ none → e.selected ≠ -1 →
      ∀ v, itemAt? e.options e.selected = some (.varName v) → v.truth = true)
    (hdo : handleDown button e = .ok u e') : e'.Declared := by
  rcases handleDown_cases hdo with
    ⟨-, rfl⟩ | ⟨he, m, e1, hm, hse, hch, rfl⟩ | ⟨act, ha, hr⟩
  · exact ⟨live, h.congr rfl⟩
  · exact h.chooseOption hs hm (ht he (by simp [hm]) hse) hch
  · have hc := h.closed
    have hs1 : e.shut.core.Steady := { hs with menu := nofun }
    cases ha with
    | nothing => exact (pure_eq_ok.1 hr).2 ▸ ⟨live, hc⟩
    | pan => exact modify_eq_ok.1 hr ▸ ⟨live, hc.congr rfl⟩
    | click => exact hc.clickWorkspace hs1 hd hr
    | rightClick => exact hc.rightClickWorkspace hs1 hd hr
    | palette => exact hc.clickPalette hs1 hr

/-! ## Dragging and typing -/

theorem Declares.released : e.released.Declares live :=
  h.change (F := ⟨e.forest.store, e.workspace, none⟩) rfl h.tidy (fun _ => id) (.refl _) fun t ht =>
    h.roots t (mem_roots.2 (.inl (show t ∈ e.workspace by simpa using ht)))

/-- A copy of a live reporter is put into a slot that takes reporters. -/
theorem Declares.plug (hs : e.core.Steady) {first : BlockId} {comp : Component}
    (hf : live (.block first)) (hb : b.index < e.forest.store.blocks.size)
    (hco : (e.forest.store.definitionOf b).inputs[i]? = some comp)
    (hfi : comp.kind.fits (e.forest.store.definitionOf first).outputType = true) :
    (e.withStore ((e.store.copyBlock first).2.setValue b i
      (.block (e.store.copyBlock first).1))).Declared := by
  have hS : e.forest.store.Sound := hs.forest.store
  have hc : e.forest.store.copyBlock first =
      ((e.store.copyBlock first).1, (e.store.copyBlock first).2.bare) := copyBlock_bare _ _
  have hsp := (hS.copyBlock (h.tidy.block_lt first hf)).sprouts
  have hbr := brings_copyBlock hS h.tidy hf
  rw [hc] at hsp hbr
  have hsr := h.tidy.sprout hS hsp hbr
  refine ⟨_, h.change (F := ⟨(e.store.copyBlock first).2.bare.setValue b i
    (.block (e.store.copyBlock first).1), e.workspace, e.cursor⟩) ?_
    (hsr.setValue (fun _ => .inr (hsp.loose_block _ (by simp))) fun hn => ?_)
    (fun _ => .inl) (hsp.grown.toStays.trans (stays_setValue ..))
    fun t ht => .inl (h.roots t ht)⟩
  · rw [← bare_setValue]
    rfl
  · obtain ⟨comp', hc', hk⟩ := hn
    rw [hsp.grown.definition_eq b hb, hco] at hc'
    cases hc'
    exact absurd hk (kind_of_fits hfi).2

/-- The dragged stack is laid down, or joined to another. -/
theorem Declares.dropCursor (hs : e.core.Steady) (ha : e.Aiming) {cursor : StackId}
    (hcu : e.cursor = some cursor) (hdr : dropCursor cursor e = .ok u e') : e'.Declared := by
  have hli : live (.stack cursor) := h.roots cursor (mem_roots.2 (.inr hcu))
  rcases dropCursor_cases ha hcu hdr with ⟨p, hd⟩ | ⟨c, s, hc, hd, hjo⟩
  · refine ⟨live, Declares.congr ?_ (board_redraw hd)⟩
    refine h.change (F := ⟨e.forest.store, e.workspace ++ [cursor], e.cursor⟩) ?_ h.tidy
      (fun _ => id) (.refl _) fun t ht => ?_
    · have hba : (e.store.setPosition cursor p.asPosition).bare = e.store.bare := bare_setPosition ..
      exact congrArg (fun s => (Forest.mk s (e.workspace ++ [cursor]) e.cursor, _)) hba
    · simp only [mem_roots, mem_append, mem_singleton] at ht
      rcases ht with (ht | rfl) | ht
      · exact h.roots t (mem_roots.2 (.inl ht))
      · exact hli
      · exact h.roots t (mem_roots.2 (.inr ht))
  rcases hjo with ⟨hj, hsp⟩ | ⟨first, b, i, comp, hf, hre, hb, hco, hfi, rfl⟩
  · -- a row is spliced in
    have hlt : c.stack.index < e.forest.store.allStacks.size := by
      cases (ha c hc).2 with
      | ends _ _ hr => exact hs.forest.reached_lt hr
      | slot hv => exact absurd hv hj
    refine ⟨live, Declares.congr (h.editRow hs hlt (fun hto b hb => ?_) hsp.bare)
      (board_redraw hd)⟩
    rcases mem_append.1 hb with hb | hb
    · rcases mem_append.1 hb with hb | hb
      · exact h.tidy.row _ b hto (mem_of_mem_take hb)
      · exact h.tidy.row _ b hli hb
    · exact h.tidy.row _ b hto (mem_of_mem_drop hb)
  · have hl : live (.block first) := h.tidy.row cursor first hli (mem_of_mem_head? hf)
    exact (h.plug hs hl hb hco hfi).congr (board_redraw hd)

theorem Declares.handleUp (hs : e.core.Steady) (ha : e.Aiming)
    (hup : handleUp button e = .ok u e') : e'.Declared := by
  obtain ⟨e1, hp, hca⟩ := handleUp_cases hup
  have ho := offers_drawPalette.ok hp
  have h1 : e1.Declares live := h.congr ho.board_eq
  rcases hca with rfl | rfl | rfl | rfl | ⟨cursor, e2, -, hc, hd, rfl⟩
  · exact ⟨live, h1.congr rfl⟩
  · exact ⟨live, h1.congr rfl⟩
  · exact ⟨live, h1⟩
  · exact ⟨live, h1.released⟩
  · have ha1 : e1.Aiming := ha.offers ho
    have hm : Moves (fun _ => True) e e1 := ho.moves
    have hs1 := (hm hs).1
    exact (h1.dropCursor hs1 ha1 hc hd).imp fun _ h => h.released

theorem Declares.drifts (hd : Drifts e e') : e'.Declares live :=
  h.congr (hd.part board fun _ _ _ _ _ => rfl)

theorem Declares.keys (hs : e.core.Steady) {code : Int} {text : String}
    (hk : Keys code text e e') : e'.Declares live := by
  cases hk with
  | type _ he hsl hw ht ha hdr =>
    refine Declares.congr ?_ (board_redraw hdr)
    rcases hs.literal_or_eq hsl hw ht ha with hl | rfl
    · exact h.assign ha hl fun hn => absurd hn (h.edited _ he).2
    · exact h
  | ask _ hp hpo =>
    refine h.poses hpo fun hr => ?_
    rcases hp with rfl | rfl <;> exact hr.elim
  | drift hd => exact h.drifts hd

end Editor

end BlockStudio
