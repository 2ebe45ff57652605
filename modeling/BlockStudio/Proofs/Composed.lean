import BlockStudio.Proofs.Aware
import BlockStudio.Proofs.SurePicture

/-!
# What stays in order in every run

`Editor.Composed` says that slots for bodies hold nothing or stacks that have places, that the stacks of
the workspace have places, and that what is edited, chosen or asked is there.  Every event and every
update keeps it, whatever is shared on the way and however much of a project could be opened:
`Reachable.composed`.  The reason is the same everywhere.  Only slots that are not for bodies are filled
by typing, by choosing a name or by dropping a reporter; a new stack in the workspace was given a place;
and the tools are taken up anew only for what was just hit.
-/

namespace BlockStudio

open Forest Editor Store Edit List

variable {α : Type} {s0 : Store} {e e1 e' : Editor} {s : Store} {u : Unit} {purpose : Purpose}
  {fuel i : Nat} {b id : BlockId} {path : List Nat} {r : Rendering} {t : StackId} {detach : Edit Unit}
  {v : Value} {text : String} {folder : Folder} {slot : Nat} {button : Int} {dt width height : Num}

/-- Slots for bodies and the workspace are in order, and so are the easings and what the tools refer to;
and what was in order in an earlier store has lasted. -/
structure Editor.Composed (e : Editor) (s0 : Store) : Prop where
  housed : e.store.Housed
  located : ∀ t ∈ e.workspace, e.store.Located t
  eased : e.Eased
  since : s0.Lasts e.store
  aware : e.Aware

/-- What the order of the editor is about. -/
def Editor.posture (e : Editor) := (e.store, e.workspace, e.eases, e.tools)

/-! ## Steps that lose nothing -/

/-- A step of a steady editor that leaves the tools alone and loses nothing that a menu stands for. -/
def Tends (e e' : Editor) : Prop :=
  e.core.Steady → e'.core.Steady ∧ Works e e' ∧ e.store.Spares e'.store

instance : IsPreorder Editor Tends where
  refl e hs := ⟨hs, refl e, .refl _⟩
  trans _ _ _ h h' hs := by
    obtain ⟨hs1, hworks, hspares⟩ := h hs
    obtain ⟨hs2, hworks', hspares'⟩ := h' hs1
    exact ⟨hs2, trans_of Works hworks hworks', hspares.trans hspares'⟩

theorem Store.spares_of_grown {s' : Store} (h : Grown s.bare s'.bare) (hs : s.bare.Sound) :
    s.Spares s' := by
  have hb : s.Spares s.bare := spares_of_bare (bare_bare s)
  have hb' : s'.bare.Spares s' := spares_of_bare (bare_bare s').symm
  exact hb.trans ((h.spares (by rwa [bare_bare])).trans hb')

theorem works_drawPalette : Keeps Works drawPalette :=
  ⟨fun e => ⟨(offers_drawPalette.run e).abides, (congrArg tools (offers_drawPalette.run e).1 :)⟩⟩

namespace Editor.Composed

section

variable (h : e.Composed s0)
include h

theorem works (hw : Works e e') (hs : e.menu = none ∨ e.store.Spares e'.store) :
    e'.Composed s0 where
  housed := hw.abides.lasts.housed h.housed
  located t ht := (hw.abides.located t ht).elim
    (fun ht => hw.abides.lasts.located t (h.located t ht)) id
  eased := h.eased.congr hw.abides.eases_eq
  since := h.since.trans hw.abides.lasts
  aware := h.aware.works hw hs

theorem tends (hs : e.core.Steady) (ht : Tends e e') : e'.Composed s0 :=
  h.works (ht hs).2.1 (.inr (ht hs).2.2)

theorem congr (hp : e'.posture = e.posture) : e'.Composed s0 := by
  simp only [posture, Prod.mk.injEq] at hp
  obtain ⟨hs, hw, he, ht⟩ := hp
  refine ⟨hs ▸ h.housed, ?_, h.eased.congr he, hs ▸ h.since, h.aware.congr hs ht⟩
  rw [hs, hw]
  exact h.located

theorem drifts (hd : Drifts e e') : e'.Composed s0 := by
  obtain ⟨_, _, _, _, rfl, he⟩ := hd
  exact h.congr (congrArg (fun x => (e.store, e.workspace, x, e.tools)) he)

theorem redraw {i : Int} (hd : Edit.redraw i e = .ok u e') : e'.Composed s0 :=
  h.works ((works_redraw i).ok hd) (.inr (spares_of_bare (bare_of_unseen ((displays_redraw i).ok hd))))

theorem drawPalette (hd : drawPalette e = .ok u e') : e'.Composed s0 :=
  h.works (works_drawPalette.ok hd) 
    (.inr (spares_of_bare (congrArg Forest.store (offers_drawPalette.ok hd).forest_eq :)))

theorem now : e.Composed e.store :=
  { h with since := .refl _ }

/-- The menu is closed and nothing is edited. -/
theorem closed : e.shut.Composed s0 where
  housed := h.housed
  located := h.located
  eased := h.eased
  since := h.since
  aware :=
    { edited := h.aware.edited
      menu := nofun
      lines := nofun
      asked := fun d purpose hd => by
        have ha := h.aware.asked d purpose hd
        cases purpose with
        | createVariable | renameVariable | deleteVariable => exact ⟨ha.1, rfl⟩
        | save | load | close => trivial }

/-- The menu is closed after a step that may lose what it stood for. -/
theorem closing (hw : Works e e') : e'.shut.Composed s0 := by
  refine h.closed.works ⟨⟨hw.abides.lasts, hw.abides.eases_eq, hw.abides.located⟩, ?_⟩
    (.inl rfl)
  have ht := hw.tools_eq
  simp only [tools, Prod.mk.injEq] at ht ⊢
  exact ⟨trivial, ht.2.1, trivial, ht.2.2.2⟩

/-- A dialog comes up for something that is there. -/
theorem asking (d : Dialog) (ha : e.Awaits purpose) :
    ({ e with dialog := some (d, purpose) } : Editor).Composed s0 where
  housed := h.housed
  located := h.located
  eased := h.eased
  since := h.since
  aware := { h.aware with
    asked := fun d' purpose' hd => by
      cases hd
      exact ha }

theorem poses (hp : Poses purpose e e') (ha : e.Awaits purpose) : e'.Composed s0 := by
  obtain ⟨d, e1, hi, rfl⟩ := hp
  refine (h.asking d ha).congr ?_
  exact (congrArg (fun u : Editor => posture { u with dialog := some (d, purpose) }) hi :)

/-- The dialog goes. -/
theorem answered : e.dismissed.Composed s0 where
  housed := h.housed
  located := h.located
  eased := h.eased
  since := h.since
  aware := { h.aware with asked := fun _ _ hd => nomatch hd }

end

end Editor.Composed

/-! ## What is hit -/

/-- A path leads to a reporter in a slot. -/
theorem Store.exists_block_of_pathAtTo {p : Point} {dx dy : Num}
    (h : s.pathAtTo p fuel id dx dy = .ok (slot :: path)) :
    ∃ b, s.slot? (s.holderAlong id slot path).1 (s.holderAlong id slot path).2 = some (.block b) := by
  induction fuel generalizing id dx dy slot path with
  | zero => cases h
  | succ fuel ih =>
    unfold pathAtTo at h
    split at h
    · cases h
    split at h
    · cases h
    · rename_i inner hs
      obtain ⟨rest, hr, h⟩ := except_bind_eq_ok.1 h
      cases h
      cases path with
      | nil => exact ⟨inner, hs⟩
      | cons next path =>
        have hst : s.holderAlong id slot (next :: path) = s.holderAlong inner next path := by
          simp only [holderAlong, hs]
        rw [hst]
        exact ih hr
    · cases h

theorem exists_block_of_hitIn {stackIndex : Int}
    (h : hitIn r stackIndex e = .ok (some (.reporter id slot path)) e') :
    ∃ b, e.store.slot? (e.store.holderAlong id slot path).1 (e.store.holderAlong id slot path).2 =
      some (.block b) := by
  obtain ⟨-, _, _, _, hp⟩ := within_of_hitIn h
  exact exists_block_of_pathAtTo hp

/-! ## Menus open -/

namespace Editor.Composed

/-- A menu is opened for something that is there. -/
theorem openMenu (h : e.Composed s0) (he : e.editing = false) (hdi : e.dialog = none)
    {m : Menu} (hm : m.Known e.store) (hop : openMenu m e = .ok u e') : e'.Composed s0 := by
  obtain ⟨e1, optionRects, menuRect, hi, hl, rfl⟩ := openMenu_cases hop
  let opened : Editor :=
    { e with menu := some m, options := optionsFor e.globals m.target, optionRects, menuRect }
  have ho : opened.Composed s0 := by
    refine ⟨h.housed, h.located, h.eased, h.since, h.aware.edited, fun m' hm' => ?_, fun m' hm' => ?_,
      fun d purpose hd => ?_⟩
    · cases hm'
      exact hm
    · cases hm'
      exact ⟨he, ⟨e.globals, rfl⟩, hl⟩
    · cases hdi.symm.trans hd
  -- drawing the lines leaves strokes only
  exact ho.congr (congrArg (fun u : Editor => posture { u with optionRects }) hi :)

/-! ## Clicks -/

/-- A body that is hit has a place. -/
theorem located_body (h : e.Composed s0) (hs : e.core.Steady)
    (hsl : e.forest.store.slot? b i = some (.stack t)) : e.store.Located t := by
  rw [slot?_forest] at hsl
  exact h.housed.located (.of_bare hs.forest.store) hsl

theorem located_rendering (h : e.Composed s0) (hs : e.core.Steady)
    (hr : e.renderings[i]? = some (some r)) : e.store.Located r.stack :=
  h.located _ (mem_of_getElem? (hs.pictured.stack_eq i r hr))

end Editor.Composed

theorem Grasp.works {F : Forest} (h : Grasp F t detach) (e : Editor) (u : Unit) (e' : Editor)
    (hd : detach e = .ok u e') : Works e e' := by
  cases h with
  | top =>
    exact trans_of Works (works_eraseStack _) ((works_redraw (-1)).ok (removeStack_eq_ok hd))
  | body => exact works_clear hd

theorem Works.menu_eq (h : Works e e') : e'.menu = e.menu :=
  congrArg (fun t => t.2.2.1) h.tools_eq

theorem Works.dialog_eq (h : Works e e') : e'.dialog = e.dialog :=
  congrArg (fun t => t.2.2.2.2.2) h.tools_eq

theorem Works.editing_eq (h : Works e e') : e'.editing = e.editing :=
  congrArg Prod.fst h.tools_eq

/-- No menu and no dialog is open, and nothing is edited. -/
def Editor.Free (e : Editor) : Prop :=
  e.menu = none ∧ e.dialog = none ∧ e.editing = false

theorem Works.free (h : Works e e') (he : e.Free) : e'.Free :=
  ⟨h.menu_eq.trans he.1, h.dialog_eq.trans he.2.1, h.editing_eq.trans he.2.2⟩

namespace Editor.Composed

section

variable (h : e.Composed s0)
include h

/-- Clicking on a stack that has a place. -/
theorem clickTo (hs : e.core.Steady) (hf : e.Free) {hit : Bool}
    (hgr : Grasp e.forest r.stack detach) (hr : e.store.Located r.stack)
    (hcl : clickTo fuel r i detach e = .ok hit e') : e'.Composed s0 := by
  induction fuel generalizing r detach hit e e' with
  | zero => exact (pure_eq_ok.1 hcl).2 ▸ h
  | succ fuel ih =>
    have hpi : ∀ {e1 : Editor} {p : Point}, Works e e1 → takeGrip i p e1 = .ok () e' →
        e'.Composed s0 := fun hw hg =>
      h.works (trans_of Works hw (works_takeGrip hg)) (.inl hf.1)
    cases clickTo_eq_ok hcl with
    | miss => exact h
    | block _ hp hg => exact hpi (works_pickBlocks hgr.works hp) hg
    | reporter _ hp hg => exact hpi (works_pickReporter hp) hg
    | flip hco hk ha hd =>
      refine (h.works (works_assign (fun c hc => ?_) ha) (.inl hf.1)).redraw hd
      cases hco.symm.trans hc
      simp [hk]
    | @body _ spot b hit e1 e2 _ hh hb hn hd =>
      obtain ⟨hsl, hcr⟩ := renderBody_eq_ok hb
      have hw := (works_renderBody spot).ok hb
      have h1 : e1.Composed s0 := h.works hw (.inl hf.1)
      have hs1 : e1.core.Steady := hcr ▸ hs
      exact (ih h1 hs1 (hw.free hf) (.body hsl) (h1.located_body hs1 hsl) hn).redraw hd
    | choose _ hna ho hd =>
      exact (h.openMenu hf.2.2 hf.2.1 ⟨Int.natCast_nonneg i, hr, hna⟩ ho).redraw hd
    | @edit spot c _ _ hco hk hd =>
      have he : Composed { e with editing := true, edited := some spot } s0 := by
        refine ⟨h.housed, h.located, h.eased, h.since, fun spot' hs' => ?_, h.aware.menu,
          fun m hm => ?_, h.aware.asked⟩
        · cases hs'
          exact ⟨c, hco, hk.2⟩
        · cases hf.1.symm.trans hm
      exact he.redraw hd

/-- Clicking on a stack that has a place with the right button. -/
theorem rightClickTo (hs : e.core.Steady) (hf : e.Free) {hit : Bool}
    (hr : e.store.Located r.stack) (hc : rightClickTo fuel r i e = .ok hit e') :
    e'.Composed s0 := by
  induction fuel generalizing r hit e e' with
  | zero => exact (pure_eq_ok.1 hc).2 ▸ h
  | succ fuel ih =>
    have hi : (0 : Int) ≤ i := Int.natCast_nonneg i
    cases rightClickTo_eq_ok hc with
    | miss | slot => exact h
    | block hid ho =>
      exact h.openMenu hf.2.2 hf.2.1 ⟨hi, hr, (List.getElem?_eq_some_iff.1 hid).1⟩ ho
    | reporter _ hh ho =>
      exact h.openMenu hf.2.2 hf.2.1 ⟨hi, hr, exists_block_of_hitIn hh⟩ ho
    | @body _ spot b hit e1 _ hh hb hn =>
      obtain ⟨hsl, hco⟩ := renderBody_eq_ok hb
      have hw := (works_renderBody spot).ok hb
      have h1 : e1.Composed s0 := h.works hw (.inl hf.1)
      have hs1 : e1.core.Steady := hco ▸ hs
      exact ih h1 hs1 (hw.free hf) (h1.located_body hs1 hsl) hn

theorem clickWorkspace (hs : e.core.Steady) (hf : e.Free) (hc : clickWorkspace e = .ok u e') :
    e'.Composed s0 := by
  rcases clickWorkspace_eq_ok hc with hd | ⟨r, i, hr, hc⟩
  · exact h.redraw hd
  · exact h.clickTo hs hf (.top (hs.pictured.stack_eq i r hr)) (h.located_rendering hs hr) hc

theorem rightClickWorkspace (hs : e.core.Steady) (hf : e.Free)
    (hc : rightClickWorkspace e = .ok u e') : e'.Composed s0 := by
  rcases rightClickWorkspace_eq_ok hc with hd | ⟨r, i, hr, hc⟩
  · exact h.redraw hd
  · exact h.rightClickTo hs hf (h.located_rendering hs hr) hc

theorem clickPalette (hm : e.menu = none) (hc : clickPalette e = .ok u e') :
    e'.Composed s0 := by
  cases clickPalette_cases hc with
  | nothing => exact h
  | @category i _ _ hd =>
    have hs : Composed { e with category := i, scroll := e.scroll.resetTo 0 } s0 :=
      h.congr rfl
    exact hs.drawPalette hd
  | @block item grip _ =>
    have ht : Works e (e.withNew item.definition) :=
      works_withCursor ((lasts_addUnfilled ..).trans (lasts_addStack ..))
    exact (h.works ht (.inl hm)).congr rfl

end

end Editor.Composed

/-! ## Choosing from menus -/

theorem Works.assign_name (hn : e.store.IsName b i) : Works e (endState (Edit.assign b i v e)) := by
  obtain ⟨c, hc, hk⟩ := hn
  unfold Edit.assign
  refine reads_store.run_bind (refl e) fun s _ => run_ite (p := Works e) (fun _ => ?_) fun _ => refl e
  refine .withStore (lasts_setValue fun _ c' hc' hs => ?_)
  cases hc.symm.trans hc'
  cases hk.symm.trans hs

theorem works_name (hn : e.store.IsName b i) (h : Edit.assign b i v e = .ok u e') : Works e e' := by
  have hw : Works e (endState (Edit.assign b i v e)) := .assign_name hn
  rwa [h] at hw

namespace Editor.Composed

variable {m : Menu}

/-- The slot that a menu for a name was opened for. -/
theorem isName_of_target (h : e.Composed s0) (hm : e.menu = some m) {spot : Spot}
    (ht : m.target = .varSlot spot) : e.store.IsName spot.block spot.slot := by
  have hk := (h.aware.menu m hm).target
  rwa [ht] at hk

/-- Choosing a line of the open menu. -/
theorem chooseOption (h : e.Composed s0) (hs : e.core.Steady) (hm : e.menu = some m)
    (hc : chooseOption m e = .ok u e') : e'.shut.Composed s0 := by
  have hdr : ∀ {i : Int} {e1 : Editor}, Works e e1 → Edit.redraw i e1 = .ok () e' →
      e'.shut.Composed s0 := fun hw hd =>
    h.closing (trans_of Works hw ((works_redraw _).ok hd))
  have hh : ∀ {e1 : Editor} {grip : Point}, Works e e1 → (e1.hanging grip).shut.Composed s0 :=
    fun hw => (h.closing hw).congr rfl
  cases chooseOption_cases hc with
  | nothing => exact h.closed
  | removeStack _ hd => exact hdr (works_eraseStack _) hd
  | removeBlock _ _ hd => exact hdr (.withStore (lasts_editRow ..)) hd
  | clear _ ha hd => exact hdr (works_clear ha) hd
  | copyStack => exact hh (works_withCursor (lasts_addStack ..))
  | copyBlock => exact hh (works_withCopy _)
  | name _ ht ha hd =>
    exact hdr (works_name (h.isName_of_target hm ht) ha) hd
  | create ht hp =>
    refine h.closed.poses hp.closed ?_
    exact ⟨h.isName_of_target hm ht, rfl⟩
  | remove ht hn hpu hp =>
    have hl := (Sound.of_bare hs.forest.store).literal_of_isName (h.isName_of_target hm ht) hn
    refine h.closed.poses hp.closed ?_
    rcases hpu with rfl | rfl <;> exact ⟨hl, rfl⟩

/-- A mouse button goes down. -/
theorem handleDown (h : e.Composed s0) (hs : e.core.Steady) (hd : e.dialog = none)
    (hdo : handleDown button e = .ok u e') : e'.Composed s0 := by
  rcases handleDown_cases hdo with
    ⟨-, rfl⟩ | ⟨-, m, e1, hm, -, hch, rfl⟩ | ⟨act, ha, hr⟩
  · exact h.congr rfl
  · exact h.chooseOption hs hm hch
  · have hc := h.closed
    have hs1 : e.shut.core.Steady := { hs with menu := nofun }
    have hf : Free e.shut := ⟨rfl, hd, rfl⟩
    cases ha with
    | nothing => exact (pure_eq_ok.1 hr).2 ▸ hc
    | pan => exact modify_eq_ok.1 hr ▸ hc.congr rfl
    | click => exact hc.clickWorkspace hs1 hf hr
    | rightClick => exact hc.rightClickWorkspace hs1 hf hr
    | palette => exact hc.clickPalette rfl hr

end Editor.Composed

/-! ## Dragging and typing -/

theorem Store.spares_spliced (s : Store) (t u : StackId) (i : Nat) : s.Spares (spliced s t u i) := by
  refine spares_editRow s t fun row => ?_
  simp only [length_append, length_take, length_drop]
  omega

namespace Editor.Composed

/-- The dragged stack is laid down, or joined to another. -/
theorem dropCursor (h : e.Composed s0) (hs : e.core.Steady) (ha : e.Aiming) {cursor : StackId}
    (hcu : e.cursor = some cursor) (hdr : dropCursor cursor e = .ok u e') : e'.Composed s0 := by
  rcases dropCursor_cases ha hcu hdr with ⟨p, hd⟩ | ⟨c, s, hc, hd, hj⟩
  · refine Composed.redraw ?_ hd
    refine h.works ⟨⟨?_, rfl, fun t ht => ?_⟩, rfl⟩ (.inr ?_)
    · exact lasts_setPosition e.store cursor p
    · refine (mem_append.1 ht).imp_right fun ht => ?_
      rw [mem_singleton.1 ht]
      have hlt := hs.forest.root_lt cursor (mem_roots.2 (.inr hcu))
      exact located_setPosition_self (by simpa [core, forest] using hlt) p
    · exact spares_of_bare (bare_setPosition ..)
  refine Composed.redraw ?_ hd
  rcases hj with ⟨-, hsp⟩ | ⟨first, b, i, comp, hfi, -, hlt, hcm, hf, rfl⟩
  · have hl : e.store.Lasts (spliced e.store c.stack cursor c.above) := lasts_editRow ..
    have hb : s.bare = (spliced e.store c.stack cursor c.above).bare :=
      hsp.bare.trans (bare_spliced ..).symm
    refine h.works (.withStore ?_) (.inr ((spares_spliced ..).trans (spares_of_bare hb)))
    rcases hsp with rfl | ⟨p, rfl⟩
    · exact hl
    · exact hl.trans (lasts_setPosition ..)
  · have hco : e.store.Lasts (e.store.copyBlock first).2 := lasts_copyBlock e.store first
    have hg := (retains_copyBlock e.store first).toGrown
    refine h.works (.withStore (hco.trans (lasts_setValue fun _ c hc hk => ?_)))
      (.inr ((hg.spares hs.forest.store).trans (spares_setReporter ..)))
    -- a slot that takes a reporter is not one for a body
    have hc' : (e.store.definitionOf b).inputs[i]? = some comp := (definitionOf_forest ..) ▸ hcm
    rw [hco.definition_eq b (size_blocks_forest e ▸ hlt), hc'] at hc
    cases hc
    exact absurd hk (kind_of_fits hf).1

theorem handleUp (h : e.Composed s0) (hs : e.core.Steady) (ha : e.Aiming)
    (hup : handleUp button e = .ok u e') : e'.Composed s0 := by
  obtain ⟨e1, hp, hca⟩ := handleUp_cases hup
  have h1 : e1.Composed s0 := h.drawPalette hp
  have ho := offers_drawPalette.ok hp
  rcases hca with rfl | rfl | rfl | rfl | ⟨cursor, e2, -, hc, hd, rfl⟩
  · exact h1.congr rfl
  · exact h1.congr rfl
  · exact h1
  · exact h1.congr rfl
  · have hm : Moves NoFile e e1 := ho.moves
    have ha1 : e1.Aiming := ha.offers ho
    exact (h1.dropCursor (hm hs).1 ha1 hc hd).congr rfl

theorem keys (h : e.Composed s0) {code : Int} (hk : Keys code text e e') : e'.Composed s0 := by
  cases hk with
  | @type spot _ _ _ _ _ _ he hed _ _ _ ha hdr =>
    have hme : e.menu = none := by
      by_contra hs
      obtain ⟨m, hm⟩ := Option.ne_none_iff_exists'.1 hs
      cases he.symm.trans (h.aware.lines m hm).1
    obtain ⟨comp, hc, hki⟩ := h.aware.edited spot hed
    refine (h.works (works_assign (fun c' hc' => ?_) ha) (.inl hme)).redraw hdr
    cases hc.symm.trans hc'
    exact hki
  | ask _ hp hpo =>
    refine h.poses hpo ?_
    rcases hp with rfl | rfl <;> trivial
  | drift hd => exact h.drifts hd

end Editor.Composed

theorem works_renameEverywhere (old new : Value) : Keeps Works (renameEverywhere old new) :=
  keeps_renameEverywhere old (fun _ _ _ => .assign_name) works_redraw

/-! ## Opening projects -/

section Take

variable {e0 : Editor} (hs0 : e0.core.Steady) (h0 : e0.Composed s0)
include hs0 h0

/-- A saved stack comes into the workspace with a place, or is read in part. -/
theorem tends_takeStack {n : Nat} {r : StackId} (hr : r ∈ e0.workspace) {json : Json}
    (hj : e0.store.IsSaved n (.stack r) json) (i : Nat) : Keeps Tends (takeStack json i) := by
  refine ⟨fun e hs => ?_⟩
  have hm : Moves (fun _ => True) e (endState (takeStack json i e)) :=
    (moves_takeStack trivial hs0 hr hj i).run e
  refine ⟨(hm hs).1, ?_⟩
  cases retakes_steady hs0 hr hj hs i with
  | part hsp _ hl hru =>
    rw [hru]
    exact ⟨.withStore (hl h0.housed), spares_of_grown hsp.grown hs.forest.store⟩
  | @whole t s hsp _ _ _ hl hlo hru =>
    rw [hru]
    have hw : Works e (e.withStack s t) := by
      refine ⟨⟨hl h0.housed, rfl, fun u hu => (mem_append.1 hu).imp_right fun hu => ?_⟩, rfl⟩
      rw [mem_singleton.1 hu]
      exact hlo h0.housed (h0.located r hr)
    have hsa : e.store.Spares (e.withStack s t).store :=
      spares_of_grown hsp.grown hs.forest.store
    refine ⟨trans_of Works hw ((works_redraw i).run _), hsa.trans ?_⟩
    exact spares_of_bare (bare_of_unseen ((displays_redraw i).run _))

end Take

/-- A text that was written in an editor in order. -/
def SavesComposed (text : String) : Prop :=
  ∃ e0 : Editor, e0.core.Steady ∧ e0.Composed e0.store ∧
    projectText e0.store e0.workspace e0.globals = .ok text

theorem SavesComposed.saves (h : SavesComposed text) : Saves (fun _ => True) text :=
  h.imp fun _ h => ⟨h.1, trivial, h.2.2⟩

/-- Opening a project, as a whole or in part. -/
theorem tends_loadProject {path : String}
    (hf : ∀ text, e.scene.folder.readPacked path = .ok text → SavesComposed text) :
    Tends e (endState (loadProject path e)) := by
  cases ht : e.scene.folder.readPacked path with
  | error f =>
    rw [loadProject_unreadable (projectIn_error ht)]
    exact refl e
  | ok text =>
    obtain ⟨e0, hs0, h0, hp⟩ := hf text ht
    refine keeps_loadProject_saved hs0 hp ht (fun hs => ?_)
      (fun _ _ i hr hj => tends_takeStack hs0 h0 hr hj i) fun e globals hv hs => ?_
    · have hm : Moves NoFile e e.cleared := .clear
      exact ⟨(hm hs).1, ⟨⟨.refl _, rfl, nofun⟩, rfl⟩, .refl _⟩
    · have hg : Moves NoFile e { e with globals } := .globals fun _ => hv
      exact ⟨(hg hs).1, .of_parts rfl rfl rfl rfl, .refl _⟩

namespace Editor.Composed

/-! ## Events and time -/

/-- Answering a dialog. -/
theorem answers (h : e.Composed s0) (hs : e.core.Steady) {button : Button} (ha : e.Awaits purpose)
    (hfi : purpose = .load → button = .confirm → ∀ packed,
      e.scene.folder.readPacked text = .ok packed → SavesComposed packed)
    (han : Answers button text e purpose e') : e'.Composed s0 := by
  have hs1 : e.dismissed.core.Steady := hs
  have hr : ∀ {e1 : Editor} {old v : Value}, renameEverywhere old v e1 = .ok () e' →
      e1.Composed s0 → e1.menu = none → e'.Composed s0 := fun hru h1 hm1 =>
    h1.works ((works_renameEverywhere _ _).ok hru) (.inl hm1)
  have hfo : ∀ {e1 : Editor} {old : Value}, e.menu = none →
      forgetName old e.dismissed = .ok () e1 →
      e1.Composed s0 ∧ e1.menu = none := fun hm hf =>
    (forgetName_eq_ok hf).2 ▸ ⟨h.answered.congr rfl, hm⟩
  cases han with
  | nothing => exact h.answered
  | create has hdr =>
    have hw := works_name (e := e.dismissed) ha.1 has
    exact ((h.answered.works hw (.inl ha.2)).redraw hdr).congr rfl
  | rename _ hf hd hru =>
    obtain ⟨h1, hm1⟩ := hfo ha.2 hf
    obtain rfl := declareName_eq_ok hd
    exact hr hru (h1.congr rfl) hm1
  | delete _ hf hru =>
    obtain ⟨h1, hm1⟩ := hfo ha.2 hf
    exact hr hru h1 hm1
  | @save folder _ hp =>
    have hsa : Composed { e with dialog := none, scene := { e.scene with folder } } s0 :=
      h.answered.congr rfl
    exact hsa.poses hp trivial
  | load hc hl =>
    have ht : Tends e.dismissed _ := tends_loadProject (hfi rfl hc)
    rw [hl] at ht
    exact h.answered.tends hs1 ht
  | failed hc hl hp =>
    have ht : Tends e.dismissed _ := tends_loadProject (hfi rfl hc)
    rw [hl] at ht
    exact (h.answered.tends hs1 ht).poses hp trivial

/-- Every event keeps the editor in order. -/
theorem handle (h : e.Composed s0) (hs : e.core.Steady) (hai : e.dialog = none → e.Aiming) {ev : Event}
    (hf : ∀ path text, e.opens ev = some path → e.scene.folder.readPacked path = .ok text →
      SavesComposed text) (hr : handle ev e = .ok u e') : e'.Composed s0 := by
  cases handle_cases hr with
  | dialog hd => exact h.asking _ (h.aware.asked _ _ hd)
  | answer hd hh han =>
    have ha := h.aware.asked _ _ hd
    refine (h.asking _ ha).answers hs ha ?_ han
    rintro rfl rfl packed hp
    exact hf _ packed (by simp [opens, hd, hh]) hp
  | drift _ hdr => exact h.drifts hdr
  | down hd hdo => exact h.handleDown hs hd hdo
  | up hd hup => exact h.handleUp hs (hai hd) hup
  | key _ hk => exact h.keys hk

end Editor.Composed

/-- What the passing of time leaves alone. -/
def Editor.agenda (e : Editor) := (e.tools, e.scene, e.program, e.devices)

theorem agenda_update (h : update dt e = .ok u e') : e'.agenda = e.agenda := by
  by_cases hd : e.dialog = none
  · obtain ⟨e1, e2, e3, e4, hp⟩ := update_cases hd h
    have hpa : e1.agenda = e.agenda := (congrArg agenda hp.offers.1 :)
    have hs : e2.agenda = e1.agenda := (congrArg agenda hp.repaints.1 :)
    have hm : e3.agenda = e2.agenda := by
      cases hp.measures with
      | nothing => rfl
      | @stack t size e1 _ hsk =>
        exact (congrArg agenda ((depicts_stack t).pictures.ok hsk) :)
    have hf : e4.agenda = e3.agenda :=
      (congrArg agenda (roams_search.findCandidate.ok hp.finds).2 :)
    obtain ⟨n, rfl, -⟩ := selectOption_eq_ok hp.selects
    exact hf.trans (hm.trans (hs.trans hpa))
  · rw [update_asking hd h]

theorem Editor.Composed.update (h : e.Composed s0) (hs : e.core.Steady)
    (hr : update dt e = .ok u e') : e'.Composed s0 := by
  have hl := lingers_update hr
  exact h.works ⟨hl.abides, congrArg Prod.fst (agenda_update hr)⟩
    (.inr ((hl.recalls hs).spares hs.forest.store))

/-! ## Runs -/

theorem eased_blank {definitions : List Definition} {workspace : List StackId} :
    (blank width height definitions s workspace folder).Eased := by
  intro ease he n
  simp only [eases, blank, Tween.rest, mem_cons, not_mem_nil, or_false] at he
  rcases he with rfl | rfl | rfl | rfl <;> exact reckons_within _ n

theorem composed_of_setUp
    (h : setUp (.blank width height Catalogue.blocks .empty [] folder) = .ok u e) :
    e.Composed e.store := by
  have ho := offers_setUp.ok h
  have hb : e.store.bare = empty.bare := (congrArg Forest.store ho.forest_eq :)
  have hw : e.workspace = [] := (congrArg Editor.workspace ho.1 :)
  have he : e.edited = none := (congrArg edited ho.1 :)
  have hme : e.menu = none := (congrArg menu ho.1 :)
  have hdi : e.dialog = none := (congrArg dialog ho.1 :)
  have hea : e.eases = eases (.blank width height Catalogue.blocks .empty [] folder) :=
    (congrArg eases ho.1 :)
  refine ⟨fun b i c v _ _ hv => ?_, fun t ht => ?_, ?_, .refl _, fun spot hs => ?_, fun m hm => ?_,
    fun m hm => ?_, fun d purpose hd => ?_⟩
  · rw [← slot?_bare, hb, slot?_bare] at hv
    exact absurd (lt_of_slot? hv) (Nat.not_lt_zero _)
  · rw [hw] at ht
    cases ht
  · exact eased_blank.congr hea
  · cases he.symm.trans hs
  · cases hme.symm.trans hm
  · cases hme.symm.trans hm
  · cases hdi.symm.trans hd

section Runs

variable {files : String → Prop} {considered : Editor → Event → Prop} {phase : Phase}

/-- In every run that opens projects of such runs, the editor is in order. -/
theorem Reachable.composed (h : Reachable files considered phase e)
    (hf : ∀ text, files text → SavesComposed text) : e.Composed e.store := by
  have hsa : ∀ text, files text → Saves (fun _ => True) text := fun text ht =>
    (hf text ht).saves
  induction h with
  | start hr => exact composed_of_setUp hr
  | devices d _ ih => exact ih.congr rfl
  | handle h _ hfi hr ih =>
    obtain ⟨hs, ha⟩ := h.steady hsa
    exact .now <| ih.handle hs (ha rfl)
      (fun path text hp ht => hf text (hfi path text hp ht)) hr
  | update h hr ih => exact (ih.update (h.steady hsa).1 hr).now

theorem Written.savesComposed (h : Written considered text) : SavesComposed text := by
  refine h.closed fun phase e text h ht => ?_
  exact ⟨e, (h.steady fun _ => SavesComposed.saves).1, h.composed fun _ => id, ht⟩

end Runs

end BlockStudio
