import BlockStudio.Proofs.Rooted
import BlockStudio.Proofs.Searching

/-!
# Rooted projects and the courses of events

Whatever order events and updates come in, the forest of the project stays rooted.  Unlike
`Core.Steady` this does not ask that the place found for the dragged stack is a present one, so no
update has to come between two events.

`Secures` relates the states before and after a step that takes nothing into the workspace.  Every course
of an event keeps it but two: a stack is let go over the workspace, or a file is opened.
-/

namespace BlockStudio

open Forest Edit Editor Store List

variable {α : Type} {e e' : Editor} {m : Menu} {u : Unit} {v : Value} {F : Forest} {s : Store}
  {t : StackId} {stackIndex : Int} {p : Point} {r : Rendering} {detach : Edit Unit} {text : String}

/-- The forest is rooted, and the renderings, the names of variables and the open menu go with it. -/
structure Core.Rooted (c : Core) : Prop where
  forest : c.forest.Rooted
  pictured : Pictured c.forest.workspace c.renderings
  globals : ∀ v ∈ c.globals, v.Stackless
  options : ∀ v, .varName v ∈ c.options → v.Stackless
  menu : ∀ m, c.menu = some m → m.Marks c.forest

theorem Core.Steady.rooted {c : Core} (hs : c.Steady) (hf : c.forest.Filled) : c.Rooted where
  forest := hs.forest.rooted hf
  pictured := hs.pictured
  globals v hv := (hs.globals v hv).stackless
  options v hv := (hs.options v hv).stackless
  menu m hm := (hs.menu m hm).toMarks

/-- From a rooted state to a rooted one.  Nothing comes into the workspace, and it is drawn as a whole if
it was before. -/
def Secures (e e' : Editor) : Prop :=
  e.core.Rooted → e'.core.Rooted ∧ e.forest.Sheds e'.forest ∧ (e.Shown → e'.Shown)

instance : IsPreorder Editor Secures where
  refl e hr := ⟨hr, .refl _, id⟩
  trans _ _ _ h h' hr := by
    obtain ⟨hr1, hsheds, hshown⟩ := h hr
    obtain ⟨hr2, hsheds', hshown'⟩ := h' hr1
    exact ⟨hr2, hsheds.trans hsheds', hshown' ∘ hshown⟩

theorem Secures.trans {e e1 e2 : Editor} (h : Secures e e1) (h1 : Secures e1 e2) : Secures e e2 :=
  trans_of Secures h h1

theorem shown_of_core (h : e'.core = e.core) : e.Shown → e'.Shown := by
  have hw : e'.workspace = e.workspace := congrArg (·.forest.workspace) h
  have hr : e'.renderings = e.renderings := congrArg Core.renderings h
  unfold Shown
  rw [hw, hr]
  exact id

theorem Secures.of_core (h : e'.core = e.core) : Secures e e' := by
  intro hr
  have hF : e'.forest = e.forest := congrArg Core.forest h
  rw [h, hF]
  exact ⟨hr, .refl _, shown_of_core h⟩

/-! ## Drawing -/

/-- What was drawn is drawn again. -/
def Redraws (e e' : Editor) : Prop :=
  ∀ (i : Nat) r, e.renderings[i]? = some (some r) → ∃ r', e'.renderings[i]? = some (some r')

instance : IsPreorder Editor Redraws where
  refl _ _ r hr := ⟨r, hr⟩
  trans _ _ _ h h' i r hr := by
    obtain ⟨r1, hr1⟩ := h i r hr
    exact h' i r1 hr1

theorem redraws_setRendering (i : Nat) (r : Rendering) : Keeps Redraws (setRendering i r) := by
  unfold setRendering
  refine .bind .get fun e => .ite (fun _ => ?_) fun _ => .throw _
  refine .modify fun e j r0 hj => ?_
  by_cases hij : i = j
  · exact ⟨r, by rw [← hij, List.getElem?_set_self (hij ▸ (List.getElem?_eq_some_iff.1 hj).1)]⟩
  · exact ⟨r0, by rwa [getElem?_set_ne hij]⟩

theorem redraws_refreshAll {again : Nat → StackId → Edit Rendering}
    (hp : ∀ i stack, Pictures (again i stack)) (i : Int) : Keeps Redraws (refreshAll again i) := by
  refine keeps_refreshAll (fun k stack => (hp k stack).mono fun e1 e2 h i r hr => ?_) redraws_setRendering i
  have hre : e2.renderings = e1.renderings := (congrArg renderings h :)
  exact ⟨r, hre ▸ hr⟩

theorem Repaints.secures (h : Repaints e e') (hre : Redraws e e') : Secures e e' := by
  intro hr
  have hw := h.workspace_eq
  refine ⟨?_, h.forest_eq ▸ .refl _, fun hs i t ht => ?_⟩
  · have hp := h.2 hr.pictured
    rw [hw] at hp
    rw [h.core_eq]
    exact { hr with pictured := hp }
  · obtain ⟨r, hr⟩ := hs i t (hw ▸ ht)
    exact hre i r hr

theorem secures_redraw (i : Int) : Keeps Secures (redraw i) :=
  ⟨fun e => ((repaints_redraw i).run e).secures ((redraws_refreshAll (fun _ => pictures_render) i).run e)⟩

theorem secures_rescaleAll (i : Int) : Keeps Secures (rescaleAll i) :=
  ⟨fun e => ((repaints_rescaleAll i).run e).secures ((redraws_refreshAll keeps_rescale i).run e)⟩

theorem Offers.secures (h : Offers e e') : Secures e e' := by
  intro hr
  have hc := h.core_eq
  have hF := h.forest_eq
  refine ⟨?_, hF ▸ .refl _, shown_of_core (e := { e with palette := e'.palette }) hc⟩
  rw [hc]
  exact { hr with }

theorem secures_drawPalette : Keeps Secures drawPalette :=
  offers_drawPalette.mono fun _ _ => Offers.secures

/-! ## Changes of the forest -/

/-- A menu is remembered for the right stack as long as stacks are not renumbered. -/
theorem Menu.Marks.sheds {F' : Forest} (h : m.Marks F) (hs : F.Sheds F')
    (hw : F'.workspace = F.workspace) : m.Marks F' := by
  refine h.mono hs.stacks_le (fun hc => ?_) hw
  rcases hs.cursor m.stack hc with hc | ⟨hn, -⟩
  · exact h.not_dragged hc
  · exact absurd h.stack_lt (Nat.not_lt_of_le hn.1)

/-- The store and the dragged stack change. -/
theorem secures_prunes (hc : e'.core = { e.core with forest := F })
    (hw : F.workspace = e.workspace) (hF : e.core.Rooted → e.forest.Prunes F) :
    Secures e e' := by
  intro hr
  obtain ⟨hro, hs⟩ := hF hr hr.forest
  have hf : e'.forest = F := congrArg Core.forest hc
  refine ⟨?_, hf ▸ hs, fun hsh => ?_⟩
  · rw [hc]
    exact { hr with
      forest := hro
      pictured := hw ▸ hr.pictured
      menu := fun m hm => (hr.menu m hm).sheds hs hw }
  · have hre : e'.renderings = e.renderings := congrArg Core.renderings hc
    have hw : e'.workspace = e.workspace := (congrArg Forest.workspace hf).trans hw
    unfold Shown
    rwa [hw, hre]

theorem Secures.withStore (h : e.core.Rooted → e.forest.Prunes ⟨s.bare, e.workspace, e.cursor⟩) :
    Secures e (e.withStore s) :=
  secures_prunes rfl rfl h

theorem Secures.withCursor (h : e.core.Rooted → e.forest.Prunes ⟨s.bare, e.workspace, some t⟩) :
    Secures e (e.withCursor s t) :=
  secures_prunes rfl rfl h

theorem secures_assign (b : BlockId) (i : Nat) (hv : v.Stackless) :
    Keeps Secures (Edit.assign b i v) := by
  constructor
  intro e
  unfold Edit.assign
  rw [store_bind]
  split
  · refine .withStore (s := e.store.setValue b i v) fun _ => ?_
    rw [bare_setValue]
    exact prunes_setValue (F := e.forest) b i hv
  · exact refl e

theorem Value.stackless_none : Value.none.Stackless := nofun

theorem Secures.withCopy (b : BlockId) : Secures e (e.withCopy b) := by
  refine .withCursor fun _ => ?_
  rw [bare_addStack, ← size_allStacks_bare]
  exact prunes_hold (F := e.forest) (adds_copyBlock e.store b).bare (by simp) none

theorem Secures.withNew (d : Definition) : Secures e (e.withNew d) := by
  refine .withCursor fun _ => ?_
  rw [bare_addStack, ← size_allStacks_bare]
  have ha : e.store.Adds (e.store.addBlock d (replicate d.countInputs .none)).2 :=
    Adds.addBlock (refl _) (fun t ht => by simp at ht) d
  exact prunes_hold (F := e.forest) ha.bare (by simp) none

/-- A copy of a whole stack that shows the same blocks hangs on the mouse. -/
theorem Secures.copyStack (hne : e.store.blocksOf t ≠ []) :
    Secures e (e.withCursor (e.store.copyStack t).2 (e.store.copyStack t).1) := by
  obtain ⟨hb, hn⟩ := bare_lifted e t
  refine .withCursor fun _ => ?_
  rw [hb, hn]
  exact prunes_hold (refl _) (by rwa [blocksOf_forest]) _

/-- A copy of a block goes to a slot. -/
theorem Secures.plug (first b : BlockId) (i : Nat) : Secures e (e.withStore
    ((e.store.copyBlock first).2.setValue b i (.block (e.store.copyBlock first).1))) := by
  refine .withStore fun _ => ?_
  rw [bare_setValue]
  have hc := prunes_adds (F := e.forest) e.cursor
    (adds_copyBlock e.store first).bare fun _ _ => .inl
  exact trans_of Prunes hc (prunes_setValue b i (v := .block _) fun _ h => nomatch h)

/-- Nothing is dragged any more. -/
theorem Secures.released (e : Editor) : Secures e e.released :=
  secures_prunes rfl rfl fun _ => prunes_roots _ (.refl _) fun _ h => nomatch h

/-- The lower part of a stack hangs on the mouse. -/
theorem Secures.split {i : Nat} (ht : t.index < e.forest.store.allStacks.size) (h0 : i ≠ 0)
    (hi : i < (e.store.blocksOf t).length) :
    Secures e (e.withCursor (cut e.store t i) ⟨e.store.allStacks.size⟩) := by
  refine .withCursor fun hr => ?_
  rw [bare_cut, ← size_allStacks_forest]
  have hro : (e.forest.store.blocksOf t).drop i ≠ [] := by
    rw [blocksOf_forest]
    simpa using hi
  refine trans_of Prunes (prunes_hold (refl _) hro none) (prunes_replaceRow ?_ fun _ => ?_)
  · exact ht.trans_le (adds_addStack ..).stacks_le
  · have hg := grown_addStack e.forest.store ((e.forest.store.blocksOf t).drop i) none
    have hs := hg.toSpans.blocksOf_eq (hr.forest.rowed.hasStack ht)
    exact (head?_take.trans (if_neg h0)).trans (congrArg head? hs).symm

/-- A stack leaves the workspace. -/
theorem Secures.eraseIdx {k : Nat}
    (hme : e.core.Rooted → ∀ m, e.menu = some m → m.stack ∉ e.workspace.eraseIdx k) :
    Secures e { e with workspace := e.workspace.eraseIdx k, renderings := e.renderings.eraseIdx k } := by
  intro hr
  obtain ⟨hro, hsh⟩ := prunes_roots (F := e.forest) e.cursor
    (eraseIdx_sublist e.workspace k) (fun _ => id) hr.forest
  refine ⟨{ hr with
    forest := hro
    pictured := hr.pictured.eraseIdx k
    menu := fun m hm => ?_ }, hsh, fun hs i t ht => ?_⟩
  · obtain ⟨hlt, hc, -⟩ := hr.menu m hm
    exact ⟨hlt, hc, fun hmm => absurd hmm (hme hr m hm)⟩
  · show ∃ r, (e.renderings.eraseIdx k)[i]? = some (some r)
    have ht : (e.workspace.eraseIdx k)[i]? = some t := ht
    rw [getElem?_eraseIdx] at ht ⊢
    split at ht <;> rename_i hi
    · rw [if_pos hi]
      exact hs i t ht
    · rw [if_neg hi]
      exact hs (i + 1) t ht

/-! ## Picking up -/

theorem Secures.openMenu (hm : e.core.Rooted → m.Marks e.forest)
    (h : openMenu m e = .ok u e') : Secures e e' := by
  obtain ⟨e1, _, _, hi, -, rfl⟩ := openMenu_cases h
  let opened : Editor := { e with menu := some m, options := optionsFor e.globals m.target }
  have ho : Secures e opened := by
    refine fun hr => ⟨{ hr with options := fun v hv => ?_, menu := ?_ }, .refl _, id⟩
    · exact hr.globals v (mem_of_optionsFor hv)
    · rintro _ ⟨⟩
      exact hm hr
  have hc : e1.core = opened.core := (congrArg core hi :)
  exact .trans ho (.of_core hc)

theorem Secures.menuFor {id : BlockId} {target : MenuTarget} (hc : Clicked e.forest t stackIndex)
    (h : Edit.openMenu ⟨t, id, stackIndex, target⟩ e = .ok u e') : Secures e e' :=
  .openMenu (fun ⟨hF, _, _, _, _⟩ =>
    hc.marks hF.nodup hF.apart (hF.shown_lt hc.shown) target) h

theorem Secures.takeGrip {i : Int} (h : takeGrip i p e = .ok u e') : Secures e e' := by
  obtain ⟨e1, grip, hd, rfl⟩ := takeGrip_cases h
  exact .trans ((secures_redraw i).ok hd) (.of_core rfl)

theorem Secures.pickBlocks {i : Nat} {id : BlockId} (hme : e.menu = none)
    (hg : Grasp e.forest r.stack detach) (hi : (e.store.blocksOf r.stack)[i]? = some id)
    (h : pickBlocks r detach i id e = .ok p e') : Secures e e' := by
  obtain ⟨hlt, -⟩ := List.getElem?_eq_some_iff.1 hi
  rcases pickBlocks_cases h with ⟨-, h⟩ | ⟨h0, rfl⟩
  · have hc : Secures e _ := .copyStack (ne_nil_of_length_pos (Nat.zero_lt_of_lt hlt))
    refine .trans hc ?_
    cases hg with
    | top hk =>
      refine .trans (.eraseIdx fun _ m hm => ?_) ((secures_redraw _).ok (removeStack_eq_ok h))
      cases hme.symm.trans hm
    | body hb => exact (secures_assign _ _ Value.stackless_none).ok h
  · intro hr
    exact Secures.split (hr.forest.shown_lt hg.mem_or_held) h0 hlt hr

theorem Secures.pickReporter {id : BlockId} {slot : Nat} {path : List Nat}
    (h : pickReporter r id slot path e = .ok p e') : Secures e e' := by
  obtain ⟨ho, last, chosen, -, -, ha⟩ := pickReporter_cases h
  exact .trans (.withCopy chosen) ((secures_assign _ _ Value.stackless_none).ok ha)

/-- Clicking on a stack. -/
theorem Secures.clickTo {fuel : Nat} {hit : Bool} (hr : e.core.Rooted) (hm : e.menu = none)
    (hgr : Grasp e.forest r.stack detach) (hc : Clicked e.forest r.stack stackIndex)
    (h : clickTo fuel r stackIndex detach e = .ok hit e') : Secures e e' := by
  induction fuel generalizing r detach hit e e' with
  | zero => exact (pure_eq_ok.1 h).2 ▸ refl e
  | succ fuel ih =>
    cases clickTo_eq_ok h with
    | miss => exact refl e
    | block hid hp hg => exact .trans (.pickBlocks hm hgr hid hp) (.takeGrip hg)
    | reporter _ hp hg => exact .trans (.pickReporter hp) (.takeGrip hg)
    | flip _ _ ha hd =>
      have hv (b : Bool) : (Value.bool b).Stackless := nofun
      exact .trans ((secures_assign _ _ (hv _)).ok ha) ((secures_redraw _).ok hd)
    | @body _ spot b hit e1 e2 _ _ hb hcl hd =>
      obtain ⟨hs, hco⟩ := renderBody_eq_ok hb
      have hm1 : e1.menu = none := (congrArg Core.menu hco).trans hm
      have hr1 : e1.core.Rooted := hco ▸ hr
      have hn : Secures e1 e2 :=
        ih hr1 hm1 (.body hs) (.body hr1.forest.apart hs stackIndex) hcl
      exact .trans (.of_core hco) (.trans hn ((secures_redraw _).ok hd))
    | choose _ _ ho hd => exact .trans (.menuFor hc ho) ((secures_redraw _).ok hd)
    | edit _ _ _ hd =>
      exact trans_of Secures (b := { e with editing := true, edited := some _ })
        (.of_core rfl) ((secures_redraw _).ok hd)

theorem Secures.rightClickTo {fuel : Nat} {hit : Bool} (hr : e.core.Rooted)
    (hc : Clicked e.forest r.stack stackIndex)
    (h : rightClickTo fuel r stackIndex e = .ok hit e') : Secures e e' := by
  induction fuel generalizing r hit e e' with
  | zero => exact (pure_eq_ok.1 h).2 ▸ refl e
  | succ fuel ih =>
    cases rightClickTo_eq_ok h with
    | miss | slot => exact refl e
    | block _ ho | reporter _ _ ho => exact .menuFor hc ho
    | @body _ spot b hit e1 _ _ hb hcl =>
      obtain ⟨hs, hco⟩ := renderBody_eq_ok hb
      have hr1 : e1.core.Rooted := hco ▸ hr
      exact .trans (.of_core hco) (ih hr1 (.body hr1.forest.apart hs stackIndex) hcl)

theorem Secures.pressing {button : Int} {act : Edit Unit} (ha : Pressing button act)
    (hm : e.menu = none) (h : act e = .ok u e') : Secures e e' := by
  intro hr
  cases ha with
  | nothing => exact (pure_eq_ok.1 h).2 ▸ refl_of Secures e hr
  | pan => exact modify_eq_ok.1 h ▸ Secures.of_core rfl hr
  | click =>
    rcases clickWorkspace_eq_ok h with h | ⟨r, i, hi, h⟩
    · exact (secures_redraw _).ok h hr
    · have hi := hr.pictured.stack_eq i r hi
      exact Secures.clickTo hr hm (.top hi) (.top hi) h hr
  | rightClick =>
    rcases rightClickWorkspace_eq_ok h with h | ⟨r, i, hi, h⟩
    · exact (secures_redraw _).ok h hr
    · exact Secures.rightClickTo hr (.top (hr.pictured.stack_eq i r hi)) h hr
  | palette =>
    cases clickPalette_cases h with
    | nothing => exact refl_of Secures e hr
    | category _ hd => exact Secures.trans (.of_core (by rfl)) (secures_drawPalette.ok hd) hr
    | @block item _ hit =>
      have ht : Secures e (e.withNew item.definition) := .withNew _
      exact Secures.trans ht (.of_core rfl) hr

/-! ## Choosing, typing and answering -/

theorem stackless_varName (hv : v.Stackless) : (MenuOption.varName v).value.Stackless := by
  show (if v.truth then v else .text "variable...").Stackless
  split
  · exact hv
  · exact nofun

theorem Secures.chooseOption (hme : e.menu = some m) (h : chooseOption m e = .ok u e') :
    Secures e e' := by
  intro hr
  have hm : m.Marks e.forest := hr.menu m hme
  cases chooseOption_cases h with
  | nothing => exact refl_of Secures e hr
  | removeStack _ hd =>
    refine Secures.trans (.eraseIdx fun hr m' hm' => ?_) ((secures_redraw _).ok hd) hr
    cases hme.symm.trans hm'
    exact not_mem_eraseIdx_findIdx hr.forest.nodup_workspace m.stack
  | @removeBlock i _ hpa ht hd =>
    -- the first block of a stack of the workspace stands for the whole stack, so it is not taken out
    have hf := (menuForStack_eq_ok hm hpa).not.1 Bool.false_ne_true
    refine Secures.trans (.withStore fun _ => ?_) ((secures_redraw _).ok hd) hr
    rw [bare_editRow]
    refine prunes_editRow (F := e.forest) hm.stack_lt fun hro => ?_
    have h0 := hm.ne_zero hf ht hro
    rw [head?_eq_getElem?, head?_eq_getElem?, getElem?_eraseIdx_of_lt (Nat.pos_of_ne_zero h0)]
  | clear _ ha hd =>
    exact Secures.trans ((secures_assign _ _ Value.stackless_none).ok ha)
      ((secures_redraw _).ok hd) hr
  | copyStack _ hw =>
    have hmm := ((menuForStack_eq_ok hm hw).1 rfl).2
    have hne := hr.forest.filled m.stack (workspace_subset_roots hmm)
    have hc := Secures.copyStack (e := e) (t := m.stack) (by rwa [← blocksOf_forest])
    exact Secures.trans hc (.of_core rfl) hr
  | @copyBlock b _ _ _ =>
    have hc := Secures.withCopy (e := e) b
    exact Secures.trans hc (.of_core rfl) hr
  | name ho _ ha hd =>
    have hv := stackless_varName (hr.options _ (mem_of_itemAt? ho))
    exact Secures.trans ((secures_assign _ _ hv).ok ha) ((secures_redraw _).ok hd) hr
  | create _ hp => exact Secures.of_core (hp.part core fun _ _ => rfl) hr
  | remove _ _ _ hp => exact Secures.of_core (hp.part core fun _ _ => rfl) hr

theorem secures_closeMenu (hc : e'.core = { e.core with menu := none }) : Secures e e' := by
  intro hr
  have hF : e'.forest = e.forest := congrArg Core.forest hc
  refine ⟨?_, hF ▸ .refl _, shown_of_core (e := { e with menu := none }) hc⟩
  rw [hc]
  exact { hr with menu := nofun }

theorem Secures.handleDown {button : Int} (h : handleDown button e = .ok u e') : Secures e e' := by
  rcases handleDown_cases h with ⟨-, rfl⟩ | ⟨-, m, e1, hm, -, hc, rfl⟩ | ⟨act, ha, h⟩
  · exact .of_core rfl
  · exact .trans (.chooseOption hm hc) (secures_closeMenu rfl)
  · have hcl : Secures e e.shut := secures_closeMenu rfl
    exact .trans hcl (.pressing ha rfl h)

/-- What a key makes of the value of a slot is no stack, or it is the value itself. -/
theorem stackless_or_eq_of_typed {kind : SlotKind} {code : Int} {v' : Value}
    (h : v.typed s kind code text = .ok v') : v'.Stackless ∨ v' = v := by
  have hl : v.lengthen text = .ok v' → v'.Stackless := by
    intro h
    cases v <;> cases h <;> exact nofun
  unfold Value.typed at h
  repeat' split at h
  all_goals first | exact .inl (hl h) | (cases h; first | exact .inr rfl | exact .inl nofun)

theorem Keys.secures {code : Int} (h : Keys code text e e') : Secures e e' := by
  cases h with
  | @type spot v w v' _ e1 _ _ _ hs hw ht ha hdr =>
    refine .trans (?_ : Secures e e1) ((secures_redraw _).ok hdr)
    have hv' : v'.Stackless ∨ v' = v := by
      rcases stackless_or_eq_of_typed ht with hv' | rfl
      · exact .inl hv'
      · exact hw.symm.imp_left fun hw => hw.2.stackless
    rcases hv' with hv' | rfl
    · exact (secures_assign _ _ hv').ok ha
    · rw [assign_self hs] at ha
      cases ha
      exact refl _
  | ask _ _ hp => exact .of_core (hp.part core fun _ _ => rfl)
  | drift hd => exact .of_core (hd.part core fun _ _ _ _ _ => rfl)

theorem Secures.globals {globals : List Value}
    (h : e.core.Rooted → ∀ v ∈ globals, v.Stackless) : Secures e { e with globals } := fun hr =>
  ⟨{ hr with globals := h hr }, .refl _, id⟩

theorem Secures.insertName {name : Value} (hn : name.Stackless) :
    Secures e { e with globals := insertName name e.globals } := by
  refine .globals fun hr v hv => ?_
  rcases mem_insertName hv with rfl | hv
  · exact hn
  · exact hr.globals v hv

theorem Secures.forgetName {name : Value} (h : forgetName name e = .ok u e') : Secures e e' := by
  obtain ⟨-, rfl⟩ := forgetName_eq_ok h
  exact .globals fun hr v hv => hr.globals v (mem_of_mem_filter hv)

theorem secures_renameEverywhere (old : Value) {new : Value} (hn : new.Stackless) :
    Keeps Secures (renameEverywhere old new) :=
  keeps_renameEverywhere old (fun _ _ e _ => (secures_assign _ _ hn).run e) secures_redraw

/-- All answers but those that open a file. -/
theorem Answers.secures {button : Button} {purpose : Purpose} (h : Answers button text e purpose e')
    (hl : ¬(purpose = .load ∧ button = .confirm)) : Secures e e' := by
  have hcl : Secures e e.dismissed := .of_core rfl
  have ht : (Value.text text).Stackless := nofun
  refine .trans hcl ?_
  cases h with
  | nothing => exact refl _
  | create ha hdr =>
    exact .trans (.trans ((secures_assign _ _ ht).ok ha)
      ((secures_redraw _).ok hdr)) (.insertName ht)
  | rename _ hf hd hr =>
    obtain rfl := declareName_eq_ok hd
    exact .trans (.trans (.forgetName hf) (.insertName ht))
      ((secures_renameEverywhere _ ht).ok hr)
  | delete _ hf hr =>
    exact .trans (.forgetName hf)
      ((secures_renameEverywhere _ Value.stackless_none).ok hr)
  | save hp => exact .of_core (hp.part core fun _ _ => rfl)
  | load hc => exact absurd ⟨rfl, hc⟩ hl
  | failed hc => exact absurd ⟨rfl, hc⟩ hl

/-! ## The passing of time -/

theorem keptBySearch_secures : KeptBySearch Secures where
  propose _ _ := .of_core rfl
  tell e t p := .of_core (core_setPosition e t _)
  openBody e b i p _ _ _ _ _ _ := by
    refine .withStore fun _ => ?_
    rw [bare_setPosition, withBody, bare_setValue, bare_addStack]
    rw [← size_allStacks_bare]
    exact prunes_openBody (F := e.forest) b i

theorem secures_update (dt : Num) : Keeps Secures (update dt) :=
  keeps_update (fun _ _ _ => .of_core rfl) secures_drawPalette secures_rescaleAll
    (fun t => (depicts_stack t).pictures.aside.core.mono fun _ _ => .of_core) (fun _ _ => .of_core rfl)
    keptBySearch_secures.findCandidate (fun _ _ => .of_core rfl) dt

/-! ## Events -/

/-- The dragged stack is let go over the workspace, after the palette was drawn. -/
inductive LetsGo (e : Editor) : Event → Editor → Prop where
  | mk {t : StackId} {e1 e2 : Editor} (hdialog : e.dialog = none) (hexcuse : e.excuseUp = false)
    (hinside : e.mouseInWorkspace = true) (hoffers : Offers e e1) (hcursor : e1.cursor = some t)
    (hdrop : dropCursor t e1 = .ok () e2) : LetsGo e (.up 1) e2.released

/-- A file is opened, or it is told that this went wrong. -/
def Opens (path : String) (e e' : Editor) : Prop :=
  loadProject path { e with dialog := none } = .ok () e' ∨
    ∃ f e1, loadProject path { e with dialog := none } = .error f e1 ∧ Poses .close e1 e'

/-- An event takes nothing into the workspace, unless a stack is let go or a file is opened. -/
theorem handle_secures {ev : Event} (h : handle ev e = .ok u e') :
    Secures e e' ∨ LetsGo e ev e' ∨ ∃ path, e.opens ev = some path ∧ Opens path e e' := by
  cases handle_cases h with
  | dialog => exact .inl (.of_core rfl)
  | @answer d d' purpose _ button _ hd hh ha =>
    by_cases hl : purpose = .load ∧ button = .confirm
    · obtain ⟨rfl, rfl⟩ := hl
      have hop : e.opens ev = some d'.value := by simp [opens, hd, hh]
      cases ha with
      | nothing => exact .inl (.of_core rfl)
      | load _ hl => exact .inr (.inr ⟨_, hop, .inl hl⟩)
      | failed _ hl hpo => exact .inr (.inr ⟨_, hop, .inr ⟨_, _, hl, hpo⟩⟩)
    · have hd : Secures e { e with dialog := some (d', purpose) } := .of_core rfl
      exact .inl (.trans hd (ha.secures hl))
  | drift _ hdr => exact .inl (.of_core (hdr.part core fun _ _ _ _ _ => rfl))
  | down _ hdo => exact .inl (.handleDown hdo)
  | up hd hup =>
    obtain ⟨e1, hp, hup⟩ := handleUp_cases hup
    have ho := offers_drawPalette.ok hp
    rcases hup with rfl | rfl | rfl | rfl | ⟨t, e2, ⟨rfl, he, hi⟩, hc, hdp, rfl⟩
    · exact .inl (.trans ho.secures (.of_core rfl))
    · exact .inl (.trans ho.secures (.of_core rfl))
    · exact .inl ho.secures
    · exact .inl (.trans ho.secures (.released e1))
    · have he' : e1.excuseUp = e.excuseUp := (congrArg excuseUp ho.1 :)
      have hi' : e1.mouseInWorkspace = e.mouseInWorkspace :=
        (congrArg mouseInWorkspace ho.1 :)
      exact .inr (.inl ⟨hd, he'.symm.trans he, hi'.symm.trans hi, ho, hc,
        hdp⟩)
  | key _ hk => exact .inl hk.secures

end BlockStudio
