import BlockStudio.Proofs.Depicted
import BlockStudio.Proofs.Reachable

/-!
# When the renderings are refreshed

Every event is a glance, or it ends by drawing all stacks (`Serves`).  Whether a drawing reaches the
stacks depends on numbers that the editor remembers: the stack of the edited slot and the stack of the
slot that a new variable is for.  `Editor.Attentive` says that these are numbers of stacks, which
every event keeps as well.
-/

namespace BlockStudio

open Editor Edit List

variable {α : Type} {saved : Forest → Prop} {m : Menu} {e e1 e' : Editor} {camera : Camera} {i : Int}
  {u : Unit} {purpose : Purpose} {r : Rendering} {detach : Edit Unit} {id : BlockId} {p : Point}
  {text : String} {keeps : Prop} {fuel : Nat} {hit : Bool} {button : Int} {dt : Num}

/-! ## Drawings that reach the stacks -/

/-- What a drawing of the workspace depends on and makes. -/
def Editor.view (e : Editor) :
    Store × List StackId × List (Option Rendering) × Camera × Num × Num :=
  (e.store, e.workspace, e.renderings, e.camera, e.width, e.height)

theorem Editor.Depicted.congr (hd : e.Depicted camera) (h : e'.view = e.view) : e'.Depicted camera := by
  simp only [view, Prod.mk.injEq] at h
  obtain ⟨hs, hw, hre, -, hwi, hh⟩ := h
  intro i t tree hi ht
  rw [hw] at hi
  rw [hs] at ht
  obtain ⟨hb, r, hr, hrn⟩ := hd i t tree hi ht
  have hc : (e'.withCamera camera).camera = (e.withCamera camera).camera := rfl
  have hp : ((e'.withCamera camera).store.stack t).position =
      ((e.withCamera camera).store.stack t).position := congrArg (fun s => (s.stack t).position) hs
  refine ⟨hb, r, hre ▸ hr, ?_⟩
  exact (rendering_congr hc hwi hh hp _).trans hrn

/-- All stacks of the workspace were just drawn. -/
def Editor.Renewed (e' : Editor) : Prop :=
  e'.workspace = [] ∨ ∃ i e e1, redraw i e = .ok () e1 ∧ i < e.workspace.length ∧ e'.view = e1.view

theorem renewed_redraw (h : redraw i e = .ok u e') (hi : i < e.workspace.length) : e'.Renewed :=
  .inr ⟨i, e, e', h, hi, rfl⟩

theorem renewed_redraw_all (h : redraw (-1) e = .ok u e') : e'.Renewed :=
  renewed_redraw h (by omega)

theorem Editor.Renewed.congr (hr : e.Renewed) (h : e'.view = e.view) : e'.Renewed := by
  rcases hr with hn | ⟨i, e0, e1, hre, hi, hv⟩
  · exact .inl ((congrArg (fun v => v.2.1) h).trans hn)
  · exact .inr ⟨i, e0, e1, hre, hi, h.trans hv⟩

theorem Editor.Renewed.depicted (h : e'.Renewed) (hs : e'.store.bare.Sound) :
    e'.Depicted e'.camera := by
  rcases h with hn | ⟨i, e, e1, hr, hi, hv⟩
  · exact depicted_of_nil hn _
  · have hst : e'.store = e1.store := congrArg Prod.fst hv
    have hc : e'.camera = e1.camera := congrArg (fun v => v.2.2.2.1) hv
    rw [hc]
    exact (depicted_redraw (hst ▸ hs) hr hi).congr hv

/-! ## Numbers of stacks that are remembered -/

/-- The edited slot and the slot that a new variable is for belong to stacks of the workspace, and no
slot is edited while a dialog is open. -/
structure Editor.Attentive (e : Editor) : Prop where
  edited : ∀ spot, e.editing = true → e.edited = some spot →
    e.dialog = none ∧ spot.stackIndex < e.workspace.length
  naming : ∀ d spot i, e.dialog = some (d, .createVariable spot i) → i < e.workspace.length

/-- What keys and buttons go to, and the stacks that they can go to. -/
def Editor.frame (e : Editor) : (Bool × Option Spot × Option (Dialog × Purpose)) × List StackId :=
  (e.focus, e.workspace)

theorem Editor.frame_eq : e'.frame = e.frame ↔ e'.editing = e.editing ∧ e'.edited = e.edited ∧
    e'.dialog = e.dialog ∧ e'.workspace = e.workspace := by
  simp [frame, focus, and_assoc]

theorem Editor.Attentive.congr (ha : e.Attentive) (h : e'.frame = e.frame) : e'.Attentive := by
  obtain ⟨hed, hei, hdi, hw⟩ := frame_eq.1 h
  refine ⟨fun spot he hs => ?_, fun d spot i hd => ?_⟩
  · rw [hdi, hw]
    exact ha.edited spot (hed ▸ he) (hei ▸ hs)
  · rw [hw]
    exact ha.naming d spot i (hdi ▸ hd)

theorem Editor.Idle.congr (h : e.Idle) (hed : e'.editing = e.editing)
    (hei : e'.edited = e.edited) : e'.Idle := fun spot he hs =>
  h spot (hed ▸ he) (hei ▸ hs)

theorem idle_of_not_editing (h : e.editing = false) : e.Idle := fun _ he => by cases h.symm.trans he

theorem Editor.Attentive.idle {d : Dialog × Purpose} (h : e.Attentive) (hd : e.dialog = some d) :
    e.Idle := fun spot he hs => by
  cases (h.edited spot he hs).1.symm.trans hd

/-- An editor in which neither keys nor buttons go to a slot. -/
theorem attentive_idle (hi : e.Idle) (hdi : e.dialog = none) : e.Attentive := by
  refine ⟨fun spot he hs => absurd hs (hi spot he), fun d spot i hd => ?_⟩
  cases hdi.symm.trans hd

/-- A dialog is shown while no slot is edited. -/
theorem attentive_asking {d : Dialog} (hi : e.Idle) (hdi : e.dialog = some (d, purpose))
    (hn : ∀ spot i, purpose = .createVariable spot i → i < e.workspace.length) : e.Attentive := by
  refine ⟨fun spot he hs => absurd hs (hi spot he), fun d' spot i hd => ?_⟩
  exact hn spot i (congrArg Prod.snd (Option.some.inj (hdi.symm.trans hd)))

/-- What an event does to the renderings and the remembered numbers. -/
structure Serves (e e' : Editor) : Prop where
  attentive : e'.Attentive
  shown : e'.Renewed ∨ Glances e e'

theorem Serves.glance (ha : e.Attentive) (hf : e'.frame = e.frame) (h : Glances e e') :
    Serves e e' :=
  ⟨ha.congr hf, .inr h⟩

theorem Serves.after (h : Serves e1 e') (hg : Glances e e1) : Serves e e' :=
  ⟨h.attentive, h.shown.imp_right fun h => trans_of Glances hg h⟩

theorem frame_redraw (h : redraw i e = .ok u e') : e'.frame = e.frame :=
  (congrArg frame ((displays_redraw i).ok h : e'.unseen = e.unseen) :)

theorem Pictures.frame {m : Edit α} (h : Pictures m) : Keeps (Same frame) m :=
  h.part Editor.frame fun _ => rfl

theorem Offers.frame_eq (h : Offers e e') : e'.frame = e.frame := (congrArg frame h.1 :)

/-- A step that changes nothing that the workspace shows. -/
theorem Glances.of_view (h : e'.view = e.view) : Glances e e' := by
  simp only [view, Prod.mk.injEq] at h
  obtain ⟨hs, hw, hr, -, hwi, hh⟩ := h
  exact .of_stage (congrArg Store.undrawn hs) hw hr hwi hh

/-! ## Mouse buttons going down -/

theorem frame_openMenu (h : openMenu m e = .ok u e') : e'.frame = e.frame ∧ Glances e e' :=
  ⟨openMenu_part h frame fun _ _ _ _ _ => rfl, .of_view (openMenu_part h view fun _ _ _ _ _ => rfl)⟩

theorem frame_renderBody {spot : Spot} (h : renderBody spot e = .ok r e') :
    e'.frame = e.frame ∧ Glances e e' := by
  unfold renderBody at h
  obtain ⟨v, hv, h⟩ := (reads_slotValue _ _).bind_eq_ok h
  cases v with
  | stack body =>
    exact ⟨(pictures_render body).frame.ok h, (pictures_render body).aside.glances.ok h⟩
  | _ => exact absurd h throw_ne_ok

/-- A stack is taken out of a slot or out of the workspace; in the second case the workspace is
drawn. -/
structure Detaches (keeps : Prop) (detach : Edit Unit) : Prop where
  focus : ∀ e u e', detach e = .ok u e' → e'.focus = e.focus
  shown : ∀ e u e', detach e = .ok u e' → e'.Renewed ∨ e'.workspace = e.workspace
  keeps : keeps → ∀ e u e', detach e = .ok u e' → e'.workspace = e.workspace

theorem detaches_removeStack (k : Nat) : Detaches False (removeStack k) where
  focus _ _ _ h := congrArg Prod.fst (frame_redraw (removeStack_eq_ok h))
  shown _ _ _ h := .inl (renewed_redraw_all (removeStack_eq_ok h))
  keeps := False.elim

theorem detaches_assign (b : BlockId) (i : Nat) : Detaches True (assign b i .none) where
  focus _ _ _ h := (assign_eq_ok.1 h).2 ▸ rfl
  shown _ _ _ h := .inr ((assign_eq_ok.1 h).2 ▸ rfl)
  keeps _ _ _ _ h := (assign_eq_ok.1 h).2 ▸ rfl

theorem pickBlocks_frame {i : Nat} (hd : Detaches keeps detach)
    (h : pickBlocks r detach i id e = .ok p e') :
    e'.focus = e.focus ∧ (e'.Renewed ∨ e'.workspace = e.workspace) ∧
      (keeps → e'.workspace = e.workspace) := by
  rcases pickBlocks_cases h with ⟨-, h⟩ | ⟨-, rfl⟩
  · have hf := hd.focus _ _ _ h
    have hs := hd.shown _ _ _ h
    have hke := fun hk => hd.keeps hk _ _ _ h
    exact ⟨hf, hs, hke⟩
  · exact ⟨rfl, .inr rfl, fun _ => rfl⟩

theorem pickReporter_frame {slot : Nat} {path : List Nat}
    (h : pickReporter r id slot path e = .ok p e') : e'.frame = e.frame := by
  obtain ⟨_, _, _, -, -, ha⟩ := pickReporter_cases h
  exact (assign_eq_ok.1 ha).2 ▸ rfl

theorem frame_takeGrip (h : takeGrip i p e = .ok u e') : e'.frame = e.frame := by
  obtain ⟨e1, _, hr, rfl⟩ := takeGrip_cases h
  have hf := frame_redraw hr
  exact hf

/-- Picking something up draws all stacks. -/
theorem renewed_takeGrip (h : takeGrip i p e = .ok u e') (hi : i < e.workspace.length ∨ e.Renewed) :
    e'.Renewed := by
  obtain ⟨e1, _, hr, rfl⟩ := takeGrip_cases h
  refine Renewed.congr (e := e1) ?_ rfl
  by_cases hlt : i < e.workspace.length
  · exact renewed_redraw hr hlt
  -- the number is that of no stack, so this drawing did nothing
  have hs : e = e1 := by
    unfold redraw refreshAll at hr
    rw [get_bind, if_neg hlt] at hr
    exact (pure_eq_ok.1 hr).2
  exact hs ▸ hi.resolve_left hlt

/-- What a click on a stack of the workspace leaves behind when it hits something. -/
structure Struck (keeps : Prop) (i : Int) (e e' : Editor) : Prop where
  renewed : e'.Renewed
  dialog_eq : e'.dialog = e.dialog
  edited : e'.editing = e.editing ∧ e'.edited = e.edited ∨
    e'.workspace = e.workspace ∧ ∃ spot, e'.edited = some spot ∧ spot.stackIndex = i
  keeps : keeps → e'.workspace = e.workspace

theorem struck_clickTo (hd : Detaches keeps detach) (hi : i < e.workspace.length)
    (h : clickTo fuel r i detach e = .ok hit e') : e' = e ∨ Struck keeps i e e' := by
  induction fuel generalizing keeps r detach hit e e' with
  | zero => exact .inl (pure_eq_ok.1 h).2.symm
  | succ fuel ih =>
    have hda : ∀ {e1 : Editor}, e1.frame = e.frame → redraw i e1 = .ok () e' →
        Struck keeps i e e' := by
      intro e1 hfr hdr
      obtain ⟨he, hed, hdi, hwo⟩ :=
        frame_eq.1 ((frame_redraw hdr).trans hfr)
      have hw1 := (frame_eq.1 hfr).2.2.2
      exact ⟨renewed_redraw hdr (hw1 ▸ hi), hdi, .inl ⟨he, hed⟩, fun _ => hwo⟩
    cases clickTo_eq_ok h with
    | miss => exact .inl rfl
    | @block _ _ _ e1 _ _ hp hg =>
      obtain ⟨hf, hsh, hke⟩ := pickBlocks_frame hd hp
      obtain ⟨he, hed, hdi, hwo⟩ := frame_eq.1 (frame_takeGrip hg)
      simp only [focus, Prod.mk.injEq] at hf
      refine .inr ⟨renewed_takeGrip hg ?_, hdi.trans hf.2.2,
        .inl ⟨he.trans hf.1, hed.trans hf.2.1⟩, fun hk => hwo.trans (hke hk)⟩
      exact hsh.symm.imp_left fun hw : e1.workspace = e.workspace => hw ▸ hi
    | reporter _ hp hg =>
      have hs := pickReporter_frame hp
      obtain ⟨he, hed, hdi, hwo⟩ :=
        frame_eq.1 ((frame_takeGrip hg).trans hs)
      have hw1 := (frame_eq.1 hs).2.2.2
      exact .inr ⟨renewed_takeGrip hg (.inl (hw1 ▸ hi)), hdi, .inl ⟨he, hed⟩,
        fun _ => hwo⟩
    | flip _ _ ha hdr => exact .inr (hda ((assign_eq_ok.1 ha).2 ▸ rfl) hdr)
    | @body _ spot b hit e1 e2 _ _ hb hc hdr =>
      obtain ⟨hf1, -⟩ := frame_renderBody hb
      obtain ⟨he1, hei, hd1, hwr⟩ := frame_eq.1 hf1
      rcases ih (detaches_assign ..) (hwr ▸ hi) hc with rfl | hs
      · exact .inr (hda hf1 hdr)
      · have hw2 := (hs.keeps trivial).trans hwr
        obtain ⟨he, hed, hdi, hwo⟩ := frame_eq.1 (frame_redraw hdr)
        refine .inr ⟨renewed_redraw hdr (hw2 ▸ hi),
          hdi.trans (hs.dialog_eq.trans hd1), ?_, fun _ => hwo.trans hw2⟩
        rw [he, hed, hwo, ← he1, ← hei, ← hwr]
        exact hs.edited
    | choose _ _ ho hdr => exact .inr (hda (frame_openMenu ho).1 hdr)
    | @edit spot _ _ hsp _ _ hdr =>
      obtain ⟨he, hed, hdi, hwo⟩ := frame_eq.1 (frame_redraw hdr)
      exact .inr ⟨renewed_redraw hdr hi, hdi, .inr ⟨hwo, spot, hed, hsp⟩,
        fun _ => hwo⟩

theorem glances_rightClickTo (h : rightClickTo fuel r i e = .ok hit e') :
    e'.frame = e.frame ∧ Glances e e' := by
  induction fuel generalizing r hit e e' with
  | zero => exact (pure_eq_ok.1 h).2 ▸ ⟨rfl, refl e⟩
  | succ fuel ih =>
    cases rightClickTo_eq_ok h with
    | miss | slot => exact ⟨rfl, refl e⟩
    | block _ ho => exact frame_openMenu ho
    | reporter _ _ ho => exact frame_openMenu ho
    | body _ hb hc =>
      obtain ⟨hf1, hg1⟩ := frame_renderBody hb
      obtain ⟨hf, hg⟩ := ih hc
      exact ⟨hf.trans hf1, trans_of Glances hg1 hg⟩

theorem serves_clickWorkspace (hs : e.core.Steady) (hid : e.Idle) (hdi : e.dialog = none)
    (h : clickWorkspace e = .ok u e') : Serves e e' := by
  have ha : e.Attentive := attentive_idle hid hdi
  rcases clickWorkspace_eq_ok h with hre | ⟨r, i, hr, hc⟩
  · exact ⟨ha.congr (frame_redraw hre), .inl (renewed_redraw_all hre)⟩
  have hi : (i : Int) < e.workspace.length := by
    have hlt := (List.getElem?_eq_some_iff.1 (hs.pictured.stack_eq i r hr)).1
    exact_mod_cast hlt
  rcases struck_clickTo (detaches_removeStack i) hi hc with rfl | hst
  · exact .glance ha rfl (refl _)
  refine ⟨?_, .inl hst.renewed⟩
  have hd' : e'.dialog = none := hst.dialog_eq.trans hdi
  rcases hst.edited with ⟨hed, he⟩ | ⟨hw, spot, he, hsp⟩
  · exact attentive_idle (hid.congr hed he) hd'
  · refine ⟨fun spot' _ hs' => ⟨hd', ?_⟩, fun d spot' k hd => ?_⟩
    · cases he.symm.trans hs'
      rw [hsp, hw]
      exact hi
    · rw [hd'] at hd
      cases hd

theorem serves_rightClickWorkspace (ha : e.Attentive) (h : rightClickWorkspace e = .ok u e') :
    Serves e e' := by
  rcases rightClickWorkspace_eq_ok h with hr | ⟨r, i, -, hc⟩
  · exact ⟨ha.congr (frame_redraw hr), .inl (renewed_redraw_all hr)⟩
  · obtain ⟨hf, hg⟩ := glances_rightClickTo hc
    exact .glance ha hf hg

theorem serves_clickPalette (ha : e.Attentive) (h : clickPalette e = .ok u e') : Serves e e' := by
  cases clickPalette_cases h with
  | nothing => exact .glance ha rfl (refl e)
  | category _ hd =>
    have ho := offers_drawPalette.ok hd
    refine .glance ha ho.frame_eq (trans_of Glances ?_ ho.glances)
    exact .of_view rfl
  | @block item _ =>
    have hg := (Store.retains_addBlock e.store item.definition
      (replicate item.definition.countInputs .none)).trans
        (Store.retains_addStack _ [⟨e.store.blocks.size⟩] none)
    refine .glance ha rfl (trans_of Glances (glances_withStore hg) ?_)
    exact .of_view rfl

/-! ## Choosing from menus -/

/-- The dragged stack, its size, and the place where it could join. -/
def Editor.hand (e : Editor) : Option StackId × Option Size × Option Candidate :=
  (e.cursor, e.cursorSize, e.candidate)

/-- Something is chosen: afterwards the same slot is edited, and a dialog is open only if it is shown
now. -/
structure Chosen (e e' : Editor) : Prop where
  dialog : e'.dialog = e.dialog ∨ e'.hand = e.hand ∧ ∃ d purpose, e'.dialog = some (d, purpose) ∧
    e'.workspace = e.workspace ∧ ∀ spot i, purpose = .createVariable spot i → i < e.workspace.length
  shown : e'.Renewed ∨ Glances e e'

theorem chosen_redraw (h : redraw i e1 = .ok u e') (hf : e1.frame = e.frame)
    (hi : i < e.workspace.length) : Chosen e e' := by
  have hw : e1.workspace = e.workspace := (frame_eq.1 hf).2.2.2
  exact ⟨.inl (frame_eq.1 ((frame_redraw h).trans hf)).2.2.1, .inl (renewed_redraw h (hw ▸ hi))⟩

/-- A copy that hangs on the mouse. -/
theorem chosen_hanging {s : Store} {cursor : StackId} {grip : Point} (hg : e.store.Retains s) :
    Chosen e ((e.withCursor s cursor).hanging grip) := by
  refine ⟨.inl rfl, .inr (trans_of Glances (glances_withStore hg) ?_)⟩
  exact .of_view rfl

namespace Poses

variable {purpose : Purpose}

theorem glances (h : Poses purpose e e') : Glances e e' := .of_view (h.part view fun _ _ => rfl)

theorem chosen (h : Poses purpose e e')
    (hn : ∀ spot i, purpose = .createVariable spot i → i < e.workspace.length) : Chosen e e' := by
  obtain ⟨d, hd⟩ := h.dialog
  have hh : e'.hand = e.hand := h.part hand fun _ _ => rfl
  exact ⟨.inr ⟨hh, d, purpose, hd, h.glances.workspace_eq, hn⟩, .inr h.glances⟩

/-- Asking for something other than the name of a new variable, while no slot is edited. -/
theorem serves (h : Poses purpose e e') (hi : e.Idle)
    (hpu : ∀ spot i, purpose ≠ .createVariable spot i) : Serves e e' := by
  obtain ⟨d, hd⟩ := h.dialog
  have he : e'.editing = e.editing := h.part editing fun _ _ => rfl
  have hed : e'.edited = e.edited := h.part edited fun _ _ => rfl
  refine ⟨attentive_asking (hi.congr he hed) hd fun spot i hp => ?_, .inr h.glances⟩
  exact absurd hp (hpu spot i)

end Poses

theorem chosen_chooseOption (hm : m.stackIndex < e.workspace.length)
    (h : chooseOption m e = .ok u e') : Chosen e e' := by
  cases chooseOption_cases h with
  | nothing => exact ⟨.inl rfl, .inr (refl e)⟩
  | removeStack _ hd =>
    exact ⟨.inl (frame_eq.1 (frame_redraw hd)).2.2.1, .inl (renewed_redraw_all hd)⟩
  | removeBlock _ _ hd => exact chosen_redraw hd rfl hm
  | clear _ ha hd | name _ _ ha hd =>
    obtain ⟨-, rfl⟩ := assign_eq_ok.1 ha
    exact chosen_redraw hd rfl hm
  | copyStack => exact chosen_hanging (Store.retains_addStack ..)
  | copyBlock =>
    exact chosen_hanging ((Store.retains_copyBlock ..).trans (Store.retains_addStack ..))
  | create _ hp =>
    refine hp.chosen fun spot i heq => ?_
    cases heq
    exact hm
  | remove _ _ hpu hp =>
    refine hp.chosen fun spot i heq => ?_
    rcases hpu with rfl | rfl <;> cases heq

/-- A mouse button goes down. -/
theorem serves_handleDown (hs : e.core.Steady) (ha : e.Attentive) (hdi : e.dialog = none)
    (hme : ∀ m, e.excuseDown = false → e.menu = some m → e.selected ≠ -1 →
      m.stackIndex < e.workspace.length) (h : handleDown button e = .ok u e') : Serves e e' := by
  rcases handleDown_cases h with
    ⟨-, rfl⟩ | ⟨he, m, e1, hm, hse, h1, rfl⟩ | ⟨act, hac, h⟩
  · exact .glance ha rfl (.of_view rfl)
  · have hc := chosen_chooseOption (hme m he hm hse) h1
    refine ⟨⟨nofun, fun d spot i hd => ?_⟩, ?_⟩
    · rcases hc.dialog with hsa | ⟨-, d', purpose, hd', hw, hn⟩
      · cases hdi.symm.trans (hsa.symm.trans hd)
      · cases hd'.symm.trans hd
        rw [hw]
        exact hn spot i rfl
    · refine hc.shown.imp (fun hr => hr.congr rfl) fun hg => trans_of Glances hg ?_
      exact .of_view rfl
  · have hcl : Glances e e.shut := .of_view rfl
    have hi : Attentive e.shut := attentive_idle (idle_of_not_editing rfl) hdi
    refine Serves.after ?_ hcl
    cases hac with
    | nothing => exact (pure_eq_ok.1 h).2 ▸ .glance hi rfl (refl _)
    | pan =>
      rw [← modify_eq_ok.1 h]
      exact .glance hi rfl (.of_view rfl)
    | click =>
      have hs1 : e.shut.core.Steady := { hs with menu := nofun }
      exact serves_clickWorkspace hs1 (idle_of_not_editing rfl) hdi h
    | rightClick => exact serves_rightClickWorkspace hi h
    | palette => exact serves_clickPalette hi h

/-! ## Mouse buttons going up -/

theorem serves_handleUp (ha : e.Attentive) (ham : e.Aiming) (h : handleUp button e = .ok u e') :
    Serves e e' := by
  obtain ⟨e1, hp, hca⟩ := handleUp_cases h
  have ho := offers_drawPalette.ok hp
  have ha1 : e1.Attentive := ha.congr ho.frame_eq
  refine Serves.after ?_ ho.glances
  rcases hca with rfl | rfl | rfl | rfl | ⟨cursor, e2, -, hcu, hdr, rfl⟩
  · exact .glance ha1 rfl (.of_view rfl)
  · exact .glance ha1 rfl (.of_view rfl)
  · exact .glance ha1 rfl (refl _)
  · exact .glance ha1 rfl (.of_view rfl)
  · have hai : e1.Aiming := ham.offers ho
    rcases dropCursor_cases hai hcu hdr with ⟨p, hr⟩ | ⟨c, s, hc, hr, -⟩
    · obtain ⟨hed, hei, hdi, hw⟩ := frame_eq.1 (frame_redraw hr)
      refine ⟨⟨fun spot he hs => ?_, fun d spot i hd => ?_⟩, .inl ?_⟩
      · obtain ⟨hn, hlt⟩ := ha1.edited spot (hed ▸ he) (hei ▸ hs)
        refine ⟨hdi.trans hn, ?_⟩
        show _ < (e2.workspace.length : Int)
        rw [hw, length_append]
        omega
      · have hlt := ha1.naming d spot i (hdi ▸ hd)
        show _ < (e2.workspace.length : Int)
        rw [hw, length_append]
        omega
      · exact (renewed_redraw_all hr).congr rfl
    · have hlt : (c.stackIndex : Int) < e1.workspace.length := by exact_mod_cast (hai c hc).1
      have hf := frame_redraw hr
      exact ⟨ha1.congr hf, .inl ((renewed_redraw hr hlt).congr rfl)⟩

/-! ## Keys -/

theorem Drifts.serves (h : Drifts e e') (ha : e.Attentive) : Serves e e' := by
  obtain ⟨_, _, _, _, rfl, -⟩ := h
  exact .glance ha rfl (.of_stage rfl rfl rfl rfl rfl)

theorem Keys.serves {code : Int} (h : Keys code text e e') (ha : e.Attentive) : Serves e e' := by
  cases h with
  | type he hed _ _ _ has hdr =>
    obtain ⟨-, rfl⟩ := assign_eq_ok.1 has
    have hf := frame_redraw hdr
    exact ⟨ha.congr hf, .inl (renewed_redraw hdr (ha.edited _ he hed).2)⟩
  | ask hi hp hpo =>
    refine hpo.serves hi fun spot i heq => ?_
    rcases hp with rfl | rfl <;> cases heq
  | drift hd => exact hd.serves ha

/-! ## Dialogs -/

/-- Renaming a variable draws the workspace after each of its stacks. -/
theorem renewed_renameEverywhere {old new : Value} (h : renameEverywhere old new e = .ok u e') :
    e'.frame = e.frame ∧ e'.Renewed := by
  have ha : ∀ b i, Keeps (Same frame) (assign b i new) := by
    refine fun b i => .bind reads_store.keeps fun s => .ite (fun _ => ?_) fun _ => .throw _
    exact ⟨fun e => rfl⟩
  have hl : ∀ (pairs : List (StackId × Nat)) {e0 e1 : Editor} {w : PUnit},
      (∀ p ∈ pairs, p.2 < e0.workspace.length) →
      (pairs.forM fun p => do
        ((← store).blocksOf p.1).forM (renameInBlock old new)
        redraw p.2) e0 = .ok w e1 →
      e1.frame = e0.frame ∧ (pairs ≠ [] → e1.Renewed) := by
    intro pairs
    induction pairs with
    | nil =>
      intro e0 e1 w _ h
      obtain ⟨-, rfl⟩ := pure_eq_ok.1 h
      exact ⟨rfl, by simp⟩
    | cons p rest ih =>
      intro e0 e1 w hlt h
      obtain ⟨_, e4, hs, h⟩ := bind_eq_ok.1 h
      simp only [store_bind] at hs
      obtain ⟨_, e3, hrn, hrd⟩ := bind_eq_ok.1 hs
      have hre : e3.frame = e0.frame := (Keeps.forM _ fun b _ =>
        keeps_renameInBlock old (fun b i e _ => (ha b i).run e) b).ok hrn
      have hf : e4.frame = e0.frame := (frame_redraw hrd).trans hre
      have hw3 := (frame_eq.1 hre).2.2.2
      have hw4 := (frame_eq.1 hf).2.2.2
      obtain ⟨hrs, hr⟩ := ih (fun q hq => hw4 ▸ hlt q (mem_cons_of_mem _ hq)) h
      refine ⟨hrs.trans hf, fun _ => ?_⟩
      by_cases hn : rest = []
      · subst hn
        obtain ⟨-, rfl⟩ := pure_eq_ok.1 h
        have hp := hlt p mem_cons_self
        exact renewed_redraw hrd (by rw [hw3]; exact_mod_cast hp)
      · exact hr hn
  rw [renameEverywhere_eq] at h
  have hnu : ∀ p ∈ e.workspace.zipIdx, p.2 < e.workspace.length := fun p hp =>
    (mem_zipIdx' hp).1
  obtain ⟨hf, hr⟩ := hl _ hnu h
  refine ⟨hf, ?_⟩
  by_cases hn : e.workspace = []
  · exact .inl ((frame_eq.1 hf).2.2.2.trans hn)
  · exact hr (by simpa using hn)

/-! ## Answers -/

/-- Each stack that is taken is drawn with those before it. -/
theorem renewed_takeStacks {i : Nat} {jsons : List Json} (hi : e.workspace.length = i)
    (h : takeStacks i jsons e = .ok u e') :
    e'.focus = e.focus ∧ (jsons ≠ [] → e'.Renewed) ∧ (jsons = [] → e' = e) := by
  induction jsons generalizing i e with
  | nil =>
    obtain ⟨-, rfl⟩ := pure_eq_ok.1 h
    exact ⟨rfl, by simp, fun _ => rfl⟩
  | cons json rest ih =>
    unfold takeStacks at h
    obtain ⟨_, e1, ht, h⟩ := bind_eq_ok.1 h
    unfold takeStack at ht
    obtain ⟨id, e2, hr, ht⟩ := bind_eq_ok.1 ht
    have hr : e2.frame = e.frame := by
      unfold readStack at hr
      split at hr <;> cases hr
      rfl
    rw [modify_bind] at ht
    obtain ⟨hed, hei, hd, hw⟩ := frame_eq.1 hr
    obtain ⟨he1, he, hd1, hw1⟩ := frame_eq.1 (frame_redraw ht)
    have hl : e2.workspace.length = i := by rw [hw, hi]
    have hl1 : e1.workspace.length = i + 1 := by
      rw [hw1, length_append, hl]
      rfl
    obtain ⟨hf, hre, hs⟩ := ih hl1 h
    refine ⟨hf.trans ?_, fun _ => ?_, nofun⟩
    · simp only [focus, he1, he, hd1, hed, hei, hd]
    · by_cases hn : rest = []
      · rw [hs hn]
        refine renewed_redraw ht ?_
        rw [length_append, hl]
        push_cast
        exact Int.lt_succ i
      · exact hre hn

theorem renewed_loadProject {path : String} (h : loadProject path e = .ok u e') :
    e'.focus = e.focus ∧ e'.Renewed := by
  obtain ⟨_, jsons, _, _, e1, -, -, hta, -, -, rfl⟩ := loadProject_eq_ok h
  obtain ⟨hf, hr, hs⟩ := renewed_takeStacks (i := 0) rfl hta
  have ht : e1.Renewed := by
    by_cases hn : jsons = []
    · exact .inl (hs hn ▸ rfl)
    · exact hr hn
  exact ⟨hf, ht.congr rfl⟩

/-- Answering a dialog, when a project is opened as a whole or not at all. -/
theorem Answers.serves {button : Button} (h : Answers button text e purpose e') (hi : e.Idle)
    (hn : ∀ spot i, purpose = .createVariable spot i → i < e.workspace.length)
    (ho : purpose = .load → button = .confirm →
      (∃ e1, loadProject text e.dismissed = .ok () e1) ∨
      ∀ json, e.projectIn text ≠ .ok json) : Serves e e' := by
  have hc : Serves e e.dismissed := ⟨attentive_idle hi rfl, .inr (.of_view rfl)⟩
  cases h with
  | nothing => exact hc
  | create ha hdr =>
    obtain ⟨-, rfl⟩ := assign_eq_ok.1 ha
    have hf := frame_redraw hdr
    have hr := renewed_redraw hdr (hn _ _ rfl)
    exact ⟨hc.attentive.congr hf, .inl (hr.congr rfl)⟩
  | rename _ hfr hd hre =>
    obtain ⟨-, rfl⟩ := forgetName_eq_ok hfr
    obtain rfl := declareName_eq_ok hd
    obtain ⟨hf, hr⟩ := renewed_renameEverywhere hre
    exact ⟨hc.attentive.congr hf, .inl hr⟩
  | delete _ hfr hre =>
    obtain ⟨-, rfl⟩ := forgetName_eq_ok hfr
    obtain ⟨hf, hr⟩ := renewed_renameEverywhere hre
    exact ⟨hc.attentive.congr hf, .inl hr⟩
  | save hpo => exact (hpo.serves hi nofun).after (.of_view rfl)
  | load _ hl =>
    obtain ⟨hfo, hr⟩ := renewed_loadProject hl
    simp only [focus, Prod.mk.injEq] at hfo
    exact ⟨attentive_idle (hi.congr hfo.1 hfo.2.1) hfo.2.2, .inl hr⟩
  | failed hco hl hpo =>
    have hu : ∃ f, e.projectIn text = .error f := by
      rcases ho rfl hco with ⟨e2, hok⟩ | hb
      · cases hok.symm.trans hl
      · cases hp : e.projectIn text with
        | ok json => exact absurd hp (hb json)
        | error f => exact ⟨f, rfl⟩
    obtain ⟨f', hp⟩ := hu
    rw [loadProject_unreadable (e := e.dismissed) hp] at hl
    cases hl
    exact (hpo.serves hi nofun).after (.of_view rfl)

/-! ## Events -/

/-- An event that chooses from no menu whose stack is gone, and that opens a project as a whole or not
at all. -/
structure Editor.Orderly (e : Editor) (ev : Event) : Prop where
  menu : ∀ m button, e.dialog = none → ev = .down button → e.excuseDown = false → e.menu = some m →
    e.selected ≠ -1 → m.stackIndex < e.workspace.length
  file : ∀ path, e.opens ev = some path →
    (∃ e1, loadProject path { e with dialog := none } = .ok () e1) ∨
      ∀ json, e.projectIn path ≠ .ok json

/-- Every orderly event is a glance or ends by drawing all stacks. -/
theorem serves_handle {ev : Event} (hs : e.core.Steady) (hai : e.dialog = none → e.Aiming)
    (ha : e.Attentive) (ho : e.Orderly ev) (h : handle ev e = .ok u e') : Serves e e' := by
  cases handle_cases h with
  | dialog hd =>
    refine ⟨attentive_asking (ha.idle hd) rfl ?_, .inr (.of_view rfl)⟩
    rintro spot i rfl
    exact ha.naming _ spot i hd
  | answer hd hh han =>
    refine (han.serves (ha.idle hd) ?_ ?_).after (.of_view rfl)
    · rintro spot i rfl
      exact ha.naming _ spot i hd
    · rintro rfl rfl
      exact ho.file _ (by simp [opens, hd, hh])
  | drift _ hdr => exact hdr.serves ha
  | down hd hdo =>
    exact serves_handleDown hs ha hd (fun m => ho.menu m _ hd rfl) hdo
  | up hd hup => exact serves_handleUp ha (hai hd) hup
  | key _ hk => exact hk.serves ha

/-! ## The passing of time -/

theorem Camera.advance_of_ended {c : Camera} (hx : c.x.ended) (hy : c.y.ended) (hz : c.zoom.ended)
    (dt : Num) : c.advance dt = c := by
  simp [Camera.advance, Tween.advance, hx, hy, hz]

/-- Scaling all stacks once for each of them. -/
theorem depicted_rescale {numbers : List Nat} {u : PUnit} (hd : e.Depicted camera)
    (hn : ∀ i ∈ numbers, i < e.workspace.length)
    (h : (forIn numbers PUnit.unit fun (i : Nat) _ => do
      rescaleAll i
      pure (ForInStep.yield PUnit.unit) : Edit PUnit) e = .ok u e') :
    e'.unseen = e.unseen ∧ (numbers ≠ [] → e'.Depicted e'.camera) ∧ (numbers = [] → e' = e) := by
  induction numbers generalizing e camera with
  | nil =>
    obtain ⟨-, rfl⟩ := pure_eq_ok.1 h
    exact ⟨rfl, by simp, fun _ => rfl⟩
  | cons i rest ih =>
    rw [forIn_cons] at h
    obtain ⟨step, e1, hs, h⟩ := bind_eq_ok.1 h
    obtain ⟨_, e2, hr, hs⟩ := bind_eq_ok.1 hs
    obtain ⟨rfl, rfl⟩ := pure_eq_ok.1 hs
    have hu : e2.unseen = e.unseen := (displays_rescaleAll _).ok hr
    have hw : e2.workspace = e.workspace := (congrArg workspace hu :)
    have hi : (i : Int) < e.workspace.length := by exact_mod_cast hn i mem_cons_self
    have hd2 := hd.rescaleAll hr hi
    obtain ⟨hre, hde, hsa⟩ :=
      ih hd2 (fun j hj => hw ▸ hn j (mem_cons_of_mem _ hj)) h
    refine ⟨hre.trans hu, fun _ => ?_, nofun⟩
    by_cases hni : rest = []
    · rw [hsa hni]
      exact hd2
    · exact hde hni

/-- A step between two drawings of the workspace, in which the camera may move. -/
structure Waits (e e' : Editor) : Prop where
  moves : Moves (fun _ => True) e e'
  glances : Glances e e'
  frame_eq : e'.frame = e.frame

instance : IsPreorder Editor Waits where
  refl e := ⟨refl e, refl e, rfl⟩
  trans _ _ _ h h' := ⟨h.moves.trans h'.moves, trans_of Glances h.glances h'.glances,
    h'.frame_eq.trans h.frame_eq⟩

theorem waits_of_core (hc : e'.core = e.core) (hg : Glances e e')
    (hf : e'.frame = e.frame) : Waits e e' :=
  ⟨.of_core hc, hg, hf⟩

theorem Measures.waits (h : Measures e e') : Waits e e' ∧ e'.camera = e.camera := by
  cases h with
  | nothing => exact ⟨refl e, rfl⟩
  | @stack t size e1 _ hs =>
    have hp := (depicts_stack t).pictures
    have hb := hp.ok hs
    have hd : Waits e e1 := ⟨hp.aside.moves.ok hs, hp.aside.glances.ok hs,
      (congrArg frame hb :)⟩
    refine ⟨trans_of Waits hd ?_, (congrArg camera hb :)⟩
    exact waits_of_core rfl (.of_view rfl) rfl

theorem waits_findCandidate (hs : e.core.Steady) (h : findCandidate e = .ok u e') :
    Waits e e' ∧ e'.camera = e.camera := by
  have hse : Seeks (fun _ => True) { e with candidate := none }
      (endState (findCandidate e)) := seeks_findCandidate hs
  rw [h] at hse
  have hg : Glances { e with candidate := none } e' := hse.glances hs
  have hf : e'.frame = e.frame := congrArg₂ Prod.mk hse.focus_eq hg.workspace_eq
  have hc : Glances e { e with candidate := none } := .of_view rfl
  exact ⟨⟨moves_findCandidate.ok h, trans_of Glances hc hg, hf⟩, (congrArg camera hse.apart_eq :)⟩

/-- After the stacks were scaled, what is dragged is drawn and aimed. -/
theorem Passes.waits {e2 e3 e4 : Editor} (h : Passes dt e e1 e2 e3 e4 e') (hs : e3.core.Steady) :
    Waits e2 e' ∧ e'.camera = e2.camera := by
  obtain ⟨hm, hc3⟩ := h.measures.waits
  obtain ⟨hso, hc4⟩ := waits_findCandidate hs h.finds
  obtain ⟨n, rfl, -⟩ := selectOption_eq_ok h.selects
  have hma : Waits e4 { e4 with selected := n } := waits_of_core rfl (.of_view rfl) rfl
  exact ⟨trans_of Waits hm (trans_of Waits hso hma), hc4.trans hc3⟩

/-- As time passes the stacks are scaled if the zoom moves: then the renderings are right for the
present camera. -/
theorem update_eq_ok (hs : e.core.Steady) (hd : e.Depicted camera) (h : update dt e = .ok u e') :
    e'.frame = e.frame ∧ (e'.camera = e.camera ∨ e'.camera = e.camera.advance dt) ∧
      (e'.Depicted e'.camera ∨ Glances e e') := by
  by_cases hdi : e.dialog = none
  · obtain ⟨e1, e2, e3, e4, hp⟩ := update_cases hdi h
    have hm : Moves (fun _ => True) e e3 := hp.moves
    obtain ⟨hr, hc⟩ := hp.waits (hm hs).1
    have hmo : Waits e (e.moved dt) := waits_of_core rfl (.of_stage rfl rfl rfl rfl rfl) rfl
    have hw := trans_of Waits hmo ⟨hp.offers.moves, hp.offers.glances, hp.offers.frame_eq⟩
    have hu : e2.unseen = e1.unseen := hp.repaints.1
    have hf2 : e2.frame = e1.frame := (congrArg frame hu :)
    have hc2 : e2.camera = e1.camera := (congrArg Editor.camera hu :)
    have hc1 : e1.camera = e.camera.advance dt := (congrArg Editor.camera hp.offers.1 :)
    refine ⟨(hr.frame_eq.trans hf2).trans hw.frame_eq,
      .inr (hc.trans (hc2.trans hc1)), ?_⟩
    have hsa : e2 = e1 → Glances e e' := fun heq =>
      trans_of Glances hw.glances (heq ▸ hr.glances)
    rcases hp.scaled with heq | hsc
    · exact .inr (hsa heq)
    · have hd1 := hd.glances hs.forest hw.glances
      obtain ⟨-, hde, heq⟩ := depicted_rescale hd1 (fun i hi => mem_range.1 hi) hsc
      by_cases hn : range e1.workspace.length = []
      · exact .inr (hsa (heq hn))
      · have hm : Moves (fun _ => True) e1 e2 := hp.repaints.moves
        have hs2 := (hm (hw.moves hs).1).1
        rw [hc]
        exact .inl ((hde hn).glances hs2.forest hr.glances)
  · rw [update_asking hdi h]
    exact ⟨rfl, .inl rfl, .inr (refl e)⟩

end BlockStudio
