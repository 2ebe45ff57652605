import BlockStudio.Proofs.EditorSteps
import BlockStudio.Proofs.Reckoning
import BlockStudio.Proofs.Saving

/-!
# The courses that events take

For every handler a relation between the states before and after it says which courses it can take.  A
course that ends by drawing the workspace gives the state in which it is drawn.  `Handles` is the relation
for events as a whole.  What is shown of events is shown of these courses: `Drifts`, in which only the
camera and the program go on, `Poses`, in which a dialog comes up, and those in which something is picked
up, chosen, typed or answered.
-/

namespace BlockStudio

open Forest Edit Editor

variable {α : Type} {e e' : Editor} {τ : Type} {w : Tween Num} {u : Unit} {message title : String}
  {r : Rendering} {i : Nat} {id : BlockId} {p : Point} {saved : Forest → Prop} {target : Num}
  {m : Menu} {k : Nat} {items : List α} {spot : Spot}

/-! ## The camera and the program go on -/

/-- Only the camera and the palette move, along the same easings. -/
def Pans (e e' : Editor) : Prop :=
  ∃ camera scroll, e' = { e with camera, scroll } ∧ e'.eases = e.eases

instance : IsPreorder Editor Pans where
  refl e := ⟨e.camera, e.scroll, rfl, rfl⟩
  trans := by
    rintro _ _ _ ⟨_, _, rfl, heases⟩ ⟨camera, scroll, rfl, heases'⟩
    exact ⟨camera, scroll, rfl, heases'.trans heases⟩

/-- Only the camera, the palette and the program go on, along the same easings. -/
def Drifts (e e' : Editor) : Prop :=
  ∃ camera scroll scene program, e' = { e with camera, scroll, scene, program } ∧ e'.eases = e.eases

instance : IsPreorder Editor Drifts where
  refl e := ⟨e.camera, e.scroll, e.scene, e.program, rfl, rfl⟩
  trans := by
    rintro _ _ _ ⟨_, _, _, _, rfl, heases⟩ ⟨camera, scroll, scene, program, rfl, heases'⟩
    exact ⟨camera, scroll, scene, program, rfl, heases'.trans heases⟩

theorem Pans.drifts (h : Pans e e') : Drifts e e' := by
  obtain ⟨camera, scroll, rfl, he⟩ := h
  exact ⟨camera, scroll, e.scene, e.program, rfl, he⟩

theorem Drifts.part (h : Drifts e e') (view : Editor → τ)
    (hv : ∀ (e : Editor) camera scroll scene program,
      view { e with camera, scroll, scene, program } = view e) : view e' = view e := by
  obtain ⟨camera, scroll, scene, program, rfl, -⟩ := h
  exact hv ..

theorem Drifts.moves (h : Drifts e e') : Moves saved e e' :=
  .of_core (h.part core fun _ _ _ _ _ => rfl)

theorem Tween.ease_headFor {w' : Tween Num} (h : w.headFor target = .ok w') : w'.ease = w.ease := by
  obtain ⟨value, -, h⟩ := except_bind_eq_ok.1 h
  cases h
  rfl

theorem pans_handleMotion (d : Point) : Keeps Pans (handleMotion d) := by
  unfold handleMotion
  refine .bind .get fun e => .ite (fun _ => ?_) fun _ => .pure _
  refine .bind (.ofExcept _) fun x => ?_
  refine .bind (.modify fun _ => ⟨_, _, rfl, rfl⟩) fun _ => ?_
  exact .bind (.ofExcept _) fun y => .modify fun _ => ⟨_, _, rfl, rfl⟩

theorem pans_zoom {zoom : Tween Num} (h : e.camera.zoom.headFor target = .ok w)
    (hz : zoom.ease = w.ease) : Pans e { e with camera := { e.camera with zoom } } := by
  refine ⟨_, _, rfl, ?_⟩
  simp only [eases, hz, Tween.ease_headFor h]

theorem pans_wheelZoom (y : Num) : Keeps Pans (wheelZoom y) := by
  refine ⟨fun e => ?_⟩
  unfold wheelZoom
  rw [get_bind]
  refine (reads_ofExcept _).run_bind (refl e) fun zoom hz => ?_
  exact pans_zoom (ofExcept_eq_ok.1 hz).1 rfl

theorem pans_wheelPalette (y : Num) : Keeps Pans (wheelPalette y) := by
  refine ⟨fun e => ?_⟩
  unfold wheelPalette
  rw [get_bind]
  refine (reads_ofExcept _).run_bind (refl e) fun value _ => ?_
  refine (reads_ofExcept _).run_bind (refl e) fun scroll hs => ⟨_, _, rfl, ?_⟩
  show [e.camera.x.ease, e.camera.y.ease, e.camera.zoom.ease, scroll.ease] = e.eases
  rw [Tween.ease_headFor (ofExcept_eq_ok.1 hs).1, eases]

theorem Edit.ease_wheelAxis {axis axis' : Tween Num} {y : Num}
    (h : wheelAxis e axis y = .ok axis') : axis'.ease = axis.ease := by
  obtain ⟨_, -, h⟩ := except_bind_eq_ok.1 h
  obtain ⟨_, -, h⟩ := except_bind_eq_ok.1 h
  obtain ⟨_, -, h⟩ := except_bind_eq_ok.1 h
  exact Tween.ease_headFor h

theorem pans_handleWheel (y : Num) : Keeps Pans (handleWheel y) := by
  refine ⟨fun e => ?_⟩
  unfold handleWheel
  rw [get_bind]
  refine run_ite (p := Pans e) (fun _ => ?_) fun _ => refl e
  refine run_ite (p := Pans e) (fun _ => (pans_wheelZoom y).run e) fun _ => ?_
  refine run_ite (p := Pans e) (fun _ => ?_) fun _ => (pans_wheelPalette y).run e
  refine run_ite (p := Pans e) (fun _ => ?_) fun _ => ?_ <;>
    refine (reads_ofExcept _).run_bind (refl e) fun axis ha => ⟨_, _, rfl, ?_⟩
  · show [axis.ease, e.camera.y.ease, e.camera.zoom.ease, e.scroll.ease] = e.eases
    rw [ease_wheelAxis (ofExcept_eq_ok.1 ha).1, eases]
  · show [e.camera.x.ease, axis.ease, e.camera.zoom.ease, e.scroll.ease] = e.eases
    rw [ease_wheelAxis (ofExcept_eq_ok.1 ha).1, eases]

theorem drifts_stepProgram (tasks : List Task) : Keeps Drifts (stepProgram tasks) := by
  refine ⟨fun e => ?_⟩
  unfold stepProgram
  rw [get_bind]
  rcases Run.step e.store .generous tasks e.scene with ⟨_ | ⟨_, _⟩, scene⟩ | ⟨exit, scene⟩ <;>
    exact ⟨_, _, _, _, rfl, rfl⟩

theorem drifts_toggleProgram : Keeps Drifts toggleProgram := by
  refine ⟨fun e => ?_⟩
  unfold toggleProgram
  rw [get_bind]
  refine run_ite (p := Drifts e) (fun _ => ⟨_, _, _, _, rfl, rfl⟩) fun _ => ?_
  refine (reads_ofExcept _).run_bind (refl e) fun starts _ => ?_
  cases starts <;> exact ⟨_, _, _, _, rfl, rfl⟩

/-! ## A dialog comes up -/

/-- A dialog is drawn and comes up. -/
def Poses (purpose : Purpose) (e e' : Editor) : Prop :=
  ∃ d, ∃ e1 : Editor, e1.clearStrokes = e.clearStrokes ∧ e' = { e1 with dialog := some (d, purpose) }

/-- The menu is closed and nothing is edited. -/
abbrev Editor.shut (e : Editor) : Editor := { e with menu := none, editing := false }

/-- The dialog goes. -/
abbrev Editor.dismissed (e : Editor) : Editor := { e with dialog := none }

namespace Poses

variable {purpose : Purpose}

theorem part (h : Poses purpose e e') (view : Editor → τ)
    (hv : ∀ (e : Editor) dialog, view { e.clearStrokes with dialog } = view e) :
    view e' = view e := by
  obtain ⟨d, e1, hi, rfl⟩ := h
  have hs := congrArg (fun u : Editor => view { u with dialog := none }) hi
  exact (hv { e1 with dialog := some (d, purpose) } none).symm.trans (hs.trans (hv e none))

theorem dialog (h : Poses purpose e e') : ∃ d, e'.dialog = some (d, purpose) := by
  obtain ⟨d, e1, -, rfl⟩ := h
  exact ⟨d, rfl⟩

theorem moves (h : Poses purpose e e') : Moves saved e e' := .of_core (h.part core fun _ _ => rfl)

theorem closed (h : Poses purpose e e') : Poses purpose e.shut e'.shut := by
  obtain ⟨d, e1, hi, rfl⟩ := h
  exact ⟨d, e1.shut, congrArg shut hi, rfl⟩

theorem of_strokes {make : Sketch Dialog} (hm : Strokes make) (h : (do
      let d ← sketch make
      modify fun e => { e with dialog := some (d, purpose) } : Edit Unit) e = .ok u e') :
    Poses purpose e e' := by
  obtain ⟨d, e1, h1, h⟩ := bind_eq_ok.1 h
  exact ⟨d, e1, hm.inks.ok h1, (modify_eq_ok.1 h).symm⟩

theorem of_showDialog {part : Nat} {buttons : List Button}
    (h : showDialog part title message buttons purpose e = .ok u e') : Poses purpose e e' :=
  .of_strokes (.dialog ..) h

theorem of_showPrompt (h : showPrompt title message purpose e = .ok u e') : Poses purpose e e' :=
  .of_strokes (strokes_prompt ..) h

end Poses

/-! ## Picking up -/

/-- The editor with another dragged stack. -/
def Editor.withCursor (e : Editor) (s : Store) (t : StackId) : Editor :=
  { e.withStore s with cursor := some t }

theorem pickBlocks_cases {detach : Edit Unit} (h : pickBlocks r detach i id e = .ok p e') :
    i = 0 ∧ detach (e.withCursor (e.store.copyStack r.stack).2 (e.store.copyStack r.stack).1) =
        .ok () e' ∨
      i ≠ 0 ∧ e' = e.withCursor (cut e.store r.stack i) ⟨e.store.allStacks.size⟩ := by
  unfold pickBlocks at h
  split at h
  case isTrue h0 =>
    obtain ⟨cursor, e1, h1, h⟩ := bind_eq_ok.1 h
    cases h1
    rw [modify_bind] at h
    obtain ⟨u, e2, h2, h⟩ := bind_eq_ok.1 h
    obtain ⟨-, rfl⟩ := pure_eq_ok.1 h
    exact .inl ⟨h0, h2⟩
  case isFalse h0 =>
    rw [store_bind, store_bind, addStack_bind, modify_bind, modifyStore_bind] at h
    exact .inr ⟨h0, (pure_eq_ok.1 h).2.symm⟩

/-- The editor after a copy of a block was made and hangs on the mouse. -/
def Editor.withCopy (e : Editor) (b : BlockId) : Editor :=
  e.withCursor ((e.store.copyBlock b).2.addStack [(e.store.copyBlock b).1] none).2
    ⟨(e.store.copyBlock b).2.allStacks.size⟩

theorem pickReporter_cases {slot : Nat} {path : List Nat}
    (h : pickReporter r id slot path e = .ok p e') : ∃ ho last chosen,
      e.store.holderAlong id slot path = (ho, last) ∧
      e.store.slot? ho last = some (.block chosen) ∧
      assign ho last .none (e.withCopy chosen) = .ok () e' := by
  unfold pickReporter at h
  rw [store_bind] at h
  rcases hh : e.store.holderAlong id slot path with ⟨ho, last⟩
  simp only [hh] at h
  obtain ⟨v, hv, h⟩ := (reads_slotValue ho last).bind_eq_ok h
  cases v with
  | block chosen =>
    dsimp only at h
    rw [copyBlock_bind, addStack_bind, modify_bind] at h
    obtain ⟨u, e3, h3, h⟩ := bind_eq_ok.1 h
    obtain ⟨-, rfl⟩ := pure_eq_ok.1 h
    exact ⟨ho, last, chosen, rfl, (slotValue_eq_ok.1 hv).1, h3⟩
  | _ => exact absurd h throw_ne_ok

theorem takeGrip_cases {i : Int} (h : takeGrip i p e = .ok u e') :
    ∃ e1 grip, redraw i e = .ok () e1 ∧ e' = { e1 with grip } := by
  unfold takeGrip at h
  rw [get_bind] at h
  obtain ⟨_, e1, h1, h⟩ := bind_eq_ok.1 h
  rw [get_bind] at h
  obtain ⟨grip, -, h⟩ := ofExcept_bind_eq_ok.1 h
  exact ⟨e1, grip, h1, (modify_eq_ok.1 h).symm⟩

/-- The editor after a block of the palette hangs on the mouse. -/
def Editor.withNew (e : Editor) (d : Definition) : Editor :=
  e.withCursor ((e.store.addBlock d (List.replicate d.countInputs .none)).2.addStack
    [⟨e.store.blocks.size⟩] none).2
    ⟨(e.store.addBlock d (List.replicate d.countInputs .none)).2.allStacks.size⟩

/-- What a click beside the workspace does: nothing, it shows a category, or it takes a block. -/
inductive Palettes (e : Editor) : Editor → Prop where
  | nothing : Palettes e e
  | category {i : Nat} {e' : Editor} (hi : i < Catalogue.categories.length)
    (hdraw : drawPalette { e with category := i, scroll := e.scroll.resetTo 0 } = .ok () e') :
    Palettes e e'
  | block {item : PaletteItem} {grip : Point} (hitem : item ∈ e.palette) :
    Palettes e { e.withNew item.definition with grip }

theorem clickPalette_cases (h : clickPalette e = .ok u e') : Palettes e e' := by
  unfold clickPalette at h
  rw [get_bind] at h
  split at h
  · rcases hc : categoryAt e with _ | i <;> simp only [hc] at h
    · exact (pure_eq_ok.1 h).2 ▸ .nothing
    · unfold showCategory at h
      rw [modify_bind] at h
      exact .category (List.mem_range.1 (List.mem_of_find?_eq_some hc)) h
  split at h
  · unfold takeFromPalette at h
    rw [get_bind] at h
    rcases hi : e.palette.find? fun item =>
      item.rect.contains e.devices.mouse.x e.devices.mouse.y with _ | item <;> simp only [hi] at h
    · exact (pure_eq_ok.1 h).2 ▸ .nothing
    rw [store_bind, modifyStore_bind, addStack_bind] at h
    exact modify_eq_ok.1 h ▸ .block (List.mem_of_find?_eq_some hi)
  · exact (pure_eq_ok.1 h).2 ▸ .nothing

/-! ## Menus -/

theorem length_of_mapM_eq_ok {ε σ β γ : Type} {f : γ → EStateM ε σ β} {l : List γ} {bs : List β}
    {s s' : σ} (h : l.mapM f s = .ok bs s') : bs.length = l.length := by
  induction l generalizing bs s s' with
  | nil =>
    obtain ⟨rfl, -⟩ := pure_eq_ok.1 h
    rfl
  | cons c l ih =>
    rw [List.mapM_cons] at h
    obtain ⟨b, s1, -, h⟩ := bind_eq_ok.1 h
    obtain ⟨bs', s2, hbs, h⟩ := bind_eq_ok.1 h
    obtain ⟨rfl, -⟩ := pure_eq_ok.1 h
    rw [List.length_cons, List.length_cons, ih hbs]

theorem length_placeOptions (mouse : Point) (width y : Nat) (sizes : List Size) :
    (placeOptions mouse width y sizes).length = sizes.length := by
  induction sizes generalizing y with
  | nil => rfl
  | cons s sizes ih => rw [placeOptions, List.length_cons, List.length_cons, ih]

/-- The lines of a menu are drawn for their sizes. -/
theorem openMenu_cases (h : openMenu m e = .ok u e') :
    ∃ (e1 : Editor) (optionRects : _) (menuRect : _), e1.clearStrokes = clearStrokes
        { e with menu := some m, options := optionsFor e.globals m.target } ∧
      optionRects.length = (optionsFor e.globals m.target).length ∧
      e' = { e1 with optionRects, menuRect } := by
  unfold openMenu at h
  rw [get_bind, modify_bind] at h
  obtain ⟨sizes, e1, hs, h⟩ := bind_eq_ok.1 h
  refine ⟨e1, _, _, (Keeps.mapM _ fun o _ => (Strokes.write ..).inks).ok hs, ?_,
    (modify_eq_ok.1 h).symm⟩
  rw [length_placeOptions, length_of_mapM_eq_ok hs]

theorem openMenu_part (h : openMenu m e = .ok u e') (view : Editor → τ)
    (hv : ∀ (e : Editor) menu options optionRects menuRect,
      view { e.clearStrokes with menu, options, optionRects, menuRect } = view e) :
    view e' = view e := by
  obtain ⟨e1, optionRects, menuRect, hi, -, rfl⟩ := openMenu_cases h
  have hs := congrArg (fun u : Editor => view { u with menu := none, options := [], optionRects := [], menuRect }) hi
  exact (hv { e1 with optionRects, menuRect } none [] [] menuRect).symm.trans
    (hs.trans (hv e none [] [] menuRect))

theorem placeIn_natCast_eq_some {length : Nat} :
    placeIn length (i : Int) = some k ↔ i < length ∧ k = i := by
  by_cases hi : i < length
  · rw [placeIn_natCast hi]
    grind
  · unfold placeIn
    grind

theorem mem_of_itemAt? {i : Int} {a : α} (h : itemAt? items i = some a) : a ∈ items := by
  obtain ⟨k, -, hk⟩ := Option.bind_eq_some_iff.1 h
  exact List.mem_of_getElem? hk

theorem takeOut_eq_ok {rest : List α} : takeOut items i e = .ok rest e' ↔
      i < items.length ∧ rest = items.eraseIdx i ∧ e' = e := by
  unfold takeOut
  rcases hk : placeIn items.length i with _ | k
  · have hi : ¬i < items.length := fun hi => by
      rw [placeIn_natCast hi] at hk
      cases hk
    simp [throw_ne_ok, hi]
  · obtain ⟨hi, rfl⟩ := placeIn_natCast_eq_some.1 hk
    rw [pure_eq_ok]
    constructor
    · rintro ⟨rfl, rfl⟩
      exact ⟨hi, rfl, rfl⟩
    · rintro ⟨-, rfl, rfl⟩
      exact ⟨rfl, rfl⟩

/-- Removing a stack from the workspace, up to the drawing that follows. -/
theorem removeStack_eq_ok (h : removeStack k e = .ok u e') : redraw (-1) { e with
      workspace := e.workspace.eraseIdx k, renderings := e.renderings.eraseIdx k } = .ok u e' := by
  unfold removeStack at h
  rw [get_bind] at h
  obtain ⟨workspace, e1, h1, h⟩ := bind_eq_ok.1 h
  obtain ⟨-, rfl, rfl⟩ := takeOut_eq_ok.1 h1
  rw [modify_bind, get_bind] at h
  obtain ⟨renderings, e2, h2, h⟩ := bind_eq_ok.1 h
  obtain ⟨-, rfl, rfl⟩ := takeOut_eq_ok.1 h2
  exact h

theorem removeBlock_eq_ok {t : StackId} (h : removeBlock t i e = .ok u e') :
    e' = e.withStore (e.store.editRow t (·.eraseIdx i)) := by
  unfold removeBlock at h
  rw [store_bind] at h
  obtain ⟨row, e1, h1, h⟩ := bind_eq_ok.1 h
  obtain ⟨-, rfl, rfl⟩ := takeOut_eq_ok.1 h1
  rw [modifyStore_eq_ok.1 h]
  exact congrArg e1.withStore (Store.editRow_congr _ rfl)

/-- What is duplicated hangs on the mouse, and the click that chose it is passed over. -/
def Editor.hanging (e : Editor) (grip : Point) : Editor :=
  { e with excuseUp := true, excuseDown := true, grip }

/-- What the marked line of a menu does. -/
inductive Chooses (m : Menu) (e : Editor) : Editor → Prop where
  | nothing : Chooses m e e
  | removeStack {e' : Editor} (hwhole : menuForStack m e = .ok true e) (hdraw : redraw (-1) { e with
      workspace := e.workspace.eraseIdx (e.workspace.findIdx (· == m.stack))
      renderings := e.renderings.eraseIdx (e.workspace.findIdx (· == m.stack)) } = .ok () e') :
    Chooses m e e'
  | removeBlock {i : Nat} {e' : Editor} (hpart : menuForStack m e = .ok false e)
    (htarget : m.target = .block i)
    (hdraw : redraw m.stackIndex (e.withStore (e.store.editRow m.stack (·.eraseIdx i))) =
      .ok () e') : Chooses m e e'
  | clear {slot : Nat} {e1 e' : Editor} (htarget : m.target = .reporter slot)
    (hassign : assign m.block slot .none e = .ok () e1)
    (hdraw : redraw m.stackIndex e1 = .ok () e') : Chooses m e e'
  | copyStack {grip : Point} (hoption : itemAt? e.options e.selected = some .duplicate)
    (hwhole : menuForStack m e = .ok true e) :
    Chooses m e ((e.withCursor (e.store.copyStack m.stack).2 (e.store.copyStack m.stack).1).hanging grip)
  | copyBlock {b : BlockId} {grip : Point} (hoption : itemAt? e.options e.selected = some .duplicate)
    (hb : b = m.block ∧ m.isReporter = false ∨ ∃ i, e.store.slot? m.block i = some (.block b)) :
    Chooses m e ((e.withCopy b).hanging grip)
  | name {v : Value} {spot : Spot} {e1 e' : Editor}
    (hoption : itemAt? e.options e.selected = some (.varName v)) (htarget : m.target = .varSlot spot)
    (hassign : assign spot.block spot.slot (MenuOption.varName v).value e = .ok () e1)
    (hdraw : redraw m.stackIndex e1 = .ok () e') : Chooses m e e'
  | create {spot : Spot} {e' : Editor} (htarget : m.target = .varSlot spot)
    (hposes : Poses (.createVariable spot m.stackIndex) e e') : Chooses m e e'
  | remove {spot : Spot} {name : Value} {purpose : Purpose} {e' : Editor}
    (htarget : m.target = .varSlot spot) (hname : e.store.slot? spot.block spot.slot = some name)
    (hpurpose : purpose = .renameVariable name ∨ purpose = .deleteVariable name)
    (hposes : Poses purpose e e') : Chooses m e e'

section Choices

variable {m : Menu}

theorem reads_menuForStack (m : Menu) : Reads (menuForStack m) := by
  unfold menuForStack
  refine .ite (fun _ => .bind .get fun e => ?_) fun _ => .pure _
  split
  · exact .pure _
  · exact .throw _

theorem menuSpot_bind_eq_ok {f : Spot → Edit Unit} (h : (menuSpot m >>= f) e = .ok u e') :
    ∃ spot, m.target = .varSlot spot ∧ f spot e = .ok u e' := by
  unfold menuSpot at h
  split at h
  case h_1 spot ht => exact ⟨spot, ht, h⟩
  case h_2 =>
    obtain ⟨_, _, hth, -⟩ := bind_eq_ok.1 h
    exact absurd hth throw_ne_ok

theorem deleteTarget_cases (h : deleteTarget m e = .ok u e') : Chooses m e e' := by
  unfold deleteTarget at h
  obtain ⟨whole, hw, h⟩ := (reads_menuForStack m).bind_eq_ok h
  cases whole with
  | true =>
    rw [if_pos rfl, get_bind] at h
    exact .removeStack hw (removeStack_eq_ok h)
  | false =>
    rw [if_neg Bool.false_ne_true] at h
    rcases ht : m.target with i | slot | spot <;> simp only [ht] at h
    · obtain ⟨_, e1, h1, h⟩ := bind_eq_ok.1 h
      exact .removeBlock hw ht (removeBlock_eq_ok h1 ▸ h)
    · obtain ⟨_, e1, h1, h⟩ := bind_eq_ok.1 h
      exact .clear ht h1 h
    · exact absurd h throw_ne_ok

theorem hang_cases {cursor : StackId} (h : hang cursor p e = .ok u e') :
    ∃ grip, e' = ({ e with cursor := some cursor } : Editor).hanging grip := by
  unfold hang at h
  rw [modify_bind, get_bind] at h
  obtain ⟨_, -, h⟩ := ofExcept_bind_eq_ok.1 h
  rw [modify_bind, get_bind] at h
  obtain ⟨grip, -, h⟩ := ofExcept_bind_eq_ok.1 h
  exact ⟨grip, (modify_eq_ok.1 h).symm⟩

theorem duplicateTarget_cases (ho : itemAt? e.options e.selected = some .duplicate)
    (h : duplicateTarget m e = .ok u e') : Chooses m e e' := by
  unfold duplicateTarget at h
  obtain ⟨whole, hw, h⟩ := (reads_menuForStack m).bind_eq_ok h
  cases whole with
  | true =>
    rw [if_pos rfl] at h
    obtain ⟨cursor, e1, h1, h⟩ := bind_eq_ok.1 h
    cases h1
    rw [store_bind] at h
    obtain ⟨place, -, h⟩ := ofExcept_bind_eq_ok.1 h
    obtain ⟨grip, rfl⟩ := hang_cases h
    exact .copyStack ho hw
  | false =>
    rw [if_neg Bool.false_ne_true] at h
    have hot : m.isReporter = false → (do
        let cursor ← addStack [← copyBlock m.block] none
        let rect := ((← Edit.store).block m.block).rect
        let place ← Edit.ofExcept ((← Edit.store).stack m.stack).place
        hang cursor ⟨rect.x + place.x, rect.y + place.y⟩ : Edit Unit) e = .ok u e' →
        Chooses m e e' := by
      intro hr h
      rw [copyBlock_bind, addStack_bind, store_bind, store_bind] at h
      obtain ⟨place, -, h⟩ := ofExcept_bind_eq_ok.1 h
      obtain ⟨grip, rfl⟩ := hang_cases h
      exact .copyBlock ho (.inl ⟨rfl, hr⟩)
    rcases ht : m.target with i | slot | spot <;> simp only [ht] at h
    · exact hot (by simp [Menu.isReporter, ht]) h
    · obtain ⟨v, hv, h⟩ := (reads_slotValue _ _).bind_eq_ok h
      cases v with
      | block id =>
        dsimp only at h
        rw [copyBlock_bind, addStack_bind, get_bind] at h
        obtain ⟨place, -, h⟩ := ofExcept_bind_eq_ok.1 h
        obtain ⟨grip, rfl⟩ := hang_cases h
        exact .copyBlock ho (.inr ⟨slot, (slotValue_eq_ok.1 hv).1⟩)
      | _ => exact absurd h throw_ne_ok
    · exact hot (by simp [Menu.isReporter, ht]) h

theorem chooseOption_cases (h : chooseOption m e = .ok u e') : Chooses m e e' := by
  unfold chooseOption at h
  rw [get_bind] at h
  rcases ho : itemAt? e.options e.selected with _ | option <;> simp only [ho] at h
  · exact absurd h throw_ne_ok
  cases option with
  | delete => exact deleteTarget_cases h
  | duplicate => exact duplicateTarget_cases ho h
  | varName v =>
    obtain ⟨spot, ht, h⟩ := menuSpot_bind_eq_ok h
    obtain ⟨_, e1, h1, h⟩ := bind_eq_ok.1 h
    exact .name ho ht h1 h
  | createVariable =>
    obtain ⟨spot, ht, h⟩ := menuSpot_bind_eq_ok h
    exact .create ht (.of_showPrompt h)
  | renameVariable =>
    obtain ⟨spot, ht, h⟩ := menuSpot_bind_eq_ok h
    obtain ⟨name, hn, h⟩ := (reads_slotValue _ _).bind_eq_ok h
    exact .remove ht (slotValue_eq_ok.1 hn).1 (.inl rfl) (.of_showPrompt h)
  | deleteVariable =>
    obtain ⟨spot, ht, h⟩ := menuSpot_bind_eq_ok h
    obtain ⟨name, hn, h⟩ := (reads_slotValue _ _).bind_eq_ok h
    exact .remove ht (slotValue_eq_ok.1 hn).1 (.inr rfl) (.of_showDialog h)
  | separator => exact (pure_eq_ok.1 h).2 ▸ .nothing

end Choices

/-! ## Keys -/

/-- No slot is edited. -/
def Editor.Idle (e : Editor) : Prop := ∀ spot, e.editing = true → e.edited ≠ some spot

/-- What a key does: it changes the edited slot, asks for a file, or lets the camera or the program go
on. -/
inductive Keys (code : Int) (text : String) (e : Editor) : Editor → Prop where
  | type {spot : Spot} {v w v' : Value} {kind : SlotKind} {e1 e' : Editor} (hediting : e.editing = true)
    (hedited : e.edited = some spot) (hslot : e.store.slot? spot.block spot.slot = some v)
    (hw : w = v ∨ v = .none ∧ w.Literal) (htyped : w.typed e.store kind code text = .ok v')
    (hassign : assign spot.block spot.slot v' e = .ok () e1)
    (hdraw : redraw spot.stackIndex e1 = .ok () e') : Keys code text e e'
  | ask {purpose : Purpose} {e' : Editor} (hidle : e.Idle) (hpurpose : purpose = .save ∨ purpose = .load)
    (hposes : Poses purpose e e') : Keys code text e e'
  | drift {e' : Editor} (hdrifts : Drifts e e') : Keys code text e e'

section Keys

variable {code : Int} {text : String}

/-- The value that a key leaves in a slot is typed, or it is the value that was there. -/
theorem literal_or_eq_of_typed {v w v' : Value} {s : Store} {kind : SlotKind}
    (hw : w = v ∨ v = .none ∧ w.Literal) (hv : v.IsNode ∨ v.Literal)
    (h : w.typed s kind code text = .ok v') : v'.Literal ∨ v' = v := by
  rcases hw with rfl | ⟨-, hw⟩
  · exact typed_eq_ok hv h
  · exact .inl ((typed_eq_ok (.inr hw) h).elim id fun heq => heq ▸ hw)

theorem typeKey_cases (he : e.editing = true) (hed : e.edited = some spot)
    (h : typeKey spot code text e = .ok u e') : Keys code text e e' := by
  unfold typeKey at h
  obtain ⟨v, hv, h⟩ := (reads_slotValue _ _).bind_eq_ok h
  obtain ⟨c, -, h⟩ := (reads_slotComponent _ _).bind_eq_ok h
  rw [store_bind] at h
  obtain ⟨v', ht, h⟩ := ofExcept_bind_eq_ok.1 h
  obtain ⟨_, e1, ha, hd⟩ := bind_eq_ok.1 h
  have hs := (slotValue_eq_ok.1 hv).1
  -- an unfilled slot begins with the text of its default
  cases v with
  | none => exact .type (w := .text _) he hed hs (.inr ⟨rfl, trivial⟩) ht ha hd
  | _ => exact .type he hed hs (.inl rfl) ht ha hd

theorem handleCommand_cases (hi : e.Idle) (h : handleCommand code e = .ok u e') :
    Keys code text e e' := by
  unfold handleCommand at h
  split at h
  · exact .ask hi (.inl rfl) (.of_showPrompt h)
  split at h
  · exact .ask hi (.inr rfl) (.of_showPrompt h)
  split at h
  · rw [get_bind] at h
    obtain ⟨zoom, hz, h⟩ := ofExcept_bind_eq_ok.1 h
    exact .drift (modify_eq_ok.1 h ▸ (pans_zoom hz rfl).drifts)
  split at h
  · exact .drift (drifts_toggleProgram.ok h)
  · exact .drift ((pure_eq_ok.1 h).2 ▸ refl e)

theorem handleKey_cases (h : handleKey code text e = .ok u e') : Keys code text e e' := by
  unfold handleKey at h
  rw [get_bind] at h
  have hc : e.Idle → (if e.devices.control then handleCommand code else pure () :
      Edit Unit) e = .ok u e' → Keys code text e e' := by
    intro hi h
    split at h
    · exact handleCommand_cases hi h
    · exact .drift ((pure_eq_ok.1 h).2 ▸ refl e)
  rcases he : e.editing with _ | _ <;> rcases hed : e.edited with _ | spot <;>
    simp only [he, hed] at h
  · exact hc (by simp [Idle, he]) h
  · exact hc (by simp [Idle, he]) h
  · exact hc (by simp [Idle, hed]) h
  · exact typeKey_cases he hed h

end Keys

/-! ## Answers -/

/-- What a button of a dialog does, after which the dialog is closed. -/
inductive Answers (button : Button) (text : String) (e : Editor) : Purpose → Editor → Prop where
  | nothing {purpose : Purpose} : Answers button text e purpose { e with dialog := none }
  | create {spot : Spot} {i : Int} {e1 e2 : Editor}
    (hassign : assign spot.block spot.slot (.text text) { e with dialog := none } = .ok () e1)
    (hdraw : redraw i e1 = .ok () e2) : Answers button text e (.createVariable spot i)
      { e2 with globals := insertName (.text text) e2.globals }
  | rename {old : Value} {e1 e2 e' : Editor} (hyes : button = .yes)
    (hforget : forgetName old { e with dialog := none } = .ok () e1)
    (hdeclare : declareName (.text text) e1 = .ok () e2)
    (hrename : renameEverywhere old (.text text) e2 = .ok () e') :
    Answers button text e (.renameVariable old) e'
  | delete {old : Value} {e1 e' : Editor} (hyes : button = .yes)
    (hforget : forgetName old { e with dialog := none } = .ok () e1)
    (hrename : renameEverywhere old .none e1 = .ok () e') :
    Answers button text e (.deleteVariable old) e'
  | save {folder : Folder} {e' : Editor}
    (hposes : Poses .close { e with dialog := none, scene := { e.scene with folder } } e') :
    Answers button text e .save e'
  | load {e' : Editor} (hconfirm : button = .confirm)
    (hload : loadProject text { e with dialog := none } = .ok () e') :
    Answers button text e .load e'
  | failed {f : Fault} {e1 e' : Editor} (hconfirm : button = .confirm)
    (hload : loadProject text { e with dialog := none } = .error f e1)
    (hposes : Poses .close e1 e') : Answers button text e .load e'

section Answers

variable {button : Button} {text : String} {u : Unit}

theorem answerCreate_cases {i : Int} (h : answerCreate button text spot i e = .ok u e') :
    Answers button text e (.createVariable spot i) e' := by
  unfold answerCreate at h
  rw [modify_bind] at h
  split at h
  case isFalse => exact (pure_eq_ok.1 h).2 ▸ .nothing
  rw [get_bind] at h
  split at h
  case isFalse => exact (pure_eq_ok.1 h).2 ▸ .nothing
  obtain ⟨_, e1, h1, h⟩ := bind_eq_ok.1 h
  obtain ⟨_, e2, h2, h⟩ := bind_eq_ok.1 h
  exact declareName_eq_ok h ▸ .create h1 h2

theorem answerSave_cases (h : answerSave button text e = .ok u e') :
    Answers button text e .save e' := by
  unfold answerSave at h
  rw [modify_bind] at h
  split at h
  case isFalse => exact (pure_eq_ok.1 h).2 ▸ .nothing
  rw [get_bind] at h
  obtain ⟨project, -, h⟩ := ofExcept_bind_eq_ok.1 h
  dsimp only at h
  rcases hw : e.scene.folder.write text (.packed project) with f | folder <;>
    simp only [hw] at h
  · have hp : Poses .close e.dismissed e' := .of_showDialog h
    exact .save hp
  · rw [set_bind] at h
    exact .save (.of_showDialog h)

theorem answerOpen_cases (h : answerOpen button text e = .ok u e') :
    Answers button text e .load e' := by
  unfold answerOpen at h
  rw [modify_bind] at h
  split at h
  case isFalse => exact (pure_eq_ok.1 h).2 ▸ .nothing
  case isTrue hc =>
  obtain h | ⟨f, e1, hl, h⟩ := tryCatch_eq_ok.1 h
  · exact .load hc h
  · exact .failed hc hl (.of_showDialog h)

theorem answerDialog_cases {d : Dialog} {purpose : Purpose}
    (h : answerDialog d purpose button e = .ok u e') : Answers button d.value e purpose e' := by
  cases purpose with
  | createVariable spot i => exact answerCreate_cases h
  | renameVariable old =>
    change answerRename button old (some d.value) e = .ok u e' at h
    unfold answerRename at h
    rw [modify_bind] at h
    split at h
    case isFalse => exact (pure_eq_ok.1 h).2 ▸ .nothing
    case isTrue hy =>
    obtain ⟨_, e1, h1, h⟩ := bind_eq_ok.1 h
    obtain ⟨_, e2, h2, h⟩ := bind_eq_ok.1 h
    exact .rename hy h1 h2 h
  | deleteVariable old =>
    change answerRename button old none e = .ok u e' at h
    unfold answerRename at h
    rw [modify_bind] at h
    split at h
    case isFalse => exact (pure_eq_ok.1 h).2 ▸ .nothing
    case isTrue hy =>
    obtain ⟨_, e1, h1, h⟩ := bind_eq_ok.1 h
    exact .delete hy h1 h
  | save => exact answerSave_cases h
  | load => exact answerOpen_cases h
  | close => exact modify_eq_ok.1 h ▸ .nothing

end Answers

/-! ## Events -/

/-- What an event does: the open dialog takes it, or it goes to the camera and the program, to the mouse
or to the keyboard. -/
inductive Handles (e : Editor) : Event → Editor → Prop where
  | dialog {d d' : Dialog} {purpose : Purpose} {ev : Event} (hdialog : e.dialog = some (d, purpose))
    (hhandle : d.handle e.devices.mouse ev = (d', none)) :
    Handles e ev { e with dialog := some (d', purpose) }
  | answer {d d' : Dialog} {purpose : Purpose} {ev : Event} {button : Button} {e' : Editor}
    (hdialog : e.dialog = some (d, purpose))
    (hhandle : d.handle e.devices.mouse ev = (d', some button))
    (hanswers : Answers button d'.value { e with dialog := some (d', purpose) } purpose e') :
    Handles e ev e'
  | drift {ev : Event} {e' : Editor} (hdialog : e.dialog = none) (hdrifts : Drifts e e') :
    Handles e ev e'
  | down {button : Int} {e' : Editor} (hdialog : e.dialog = none)
    (hdown : handleDown button e = .ok () e') : Handles e (.down button) e'
  | up {button : Int} {e' : Editor} (hdialog : e.dialog = none)
    (hup : handleUp button e = .ok () e') : Handles e (.up button) e'
  | key {code : Int} {text : String} {e' : Editor} (hdialog : e.dialog = none)
    (hkeys : Keys code text e e') : Handles e (.key code text) e'

theorem handle_cases {ev : Event} (h : handle ev e = .ok u e') : Handles e ev e' := by
  unfold handle at h
  rw [get_bind] at h
  rcases hd : e.dialog with _ | ⟨d, purpose⟩ <;> simp only [hd] at h
  case some =>
    unfold handleDialog at h
    rw [get_bind] at h
    rcases hh : d.handle e.devices.mouse ev with ⟨d', _ | button⟩ <;>
      simp only [hh] at h <;> rw [modify_bind] at h
    · exact (pure_eq_ok.1 h).2 ▸ .dialog hd hh
    · exact .answer hd hh (answerDialog_cases h)
  cases ev with
  | tick =>
    rcases hp : e.program with _ | tasks <;> simp only [hp] at h
    · exact .drift hd ((pure_eq_ok.1 h).2 ▸ refl e)
    · exact .drift hd ((drifts_stepProgram tasks).ok h)
  | down button => exact .down hd h
  | up button => exact .up hd h
  | motion d => exact .drift hd ((pans_handleMotion d).ok h).drifts
  | wheel y => exact .drift hd ((pans_handleWheel y).ok h).drifts
  | key code text => exact .key hd (handleKey_cases h)
  | quit => exact .drift hd ((pure_eq_ok.1 h).2 ▸ refl e)

end BlockStudio
