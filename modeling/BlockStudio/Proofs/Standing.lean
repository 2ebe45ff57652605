import BlockStudio.Proofs.Rectangles
import BlockStudio.Proofs.SureAnswer

/-!
# What holds in every run

A run is heedful when no event shares a stack or a block, none chooses from a menu whose stack is gone,
and projects are opened as a whole or not at all.  In every heedful run the editor is calm, every stack
has a rendering, and every block was drawn.  Between an event and the next passing of time a stack may
be dragged that was not measured; but then no dialog is open, so that time passes before it is drawn.
-/

namespace BlockStudio

open Forest Editor Edit

variable {e e' : Editor} {u : Unit} {purpose : Purpose} {text : String}

/-! ## Blocks that were drawn -/

/-- Blocks were drawn, and nothing else of the store has changed. -/
def Retouches (e e' : Editor) : Prop := e.canvas.Redrawn e'.canvas

instance : IsPreorder Editor Retouches where
  refl e := refl_of Canvas.Redrawn e.canvas
  trans _ _ _ := trans_of Canvas.Redrawn

theorem retouches_render (t : StackId) : Keeps Retouches (render t) := by
  refine .bind (.sketch (Q := Canvas.Redrawn) ?_ fun _ _ h => h) fun _ => .bind .get fun _ => .ofExcept _
  exact .bind .get fun _ => (redraws_drawTo _).stack t

theorem retouches_setRendering (i : Nat) (r : Rendering) : Keeps Retouches (setRendering i r) :=
  .bind .get fun _ => .ite (fun _ => .modify fun e => refl_of Canvas.Redrawn e.canvas) fun _ => .throw _

/-- Drawing all stacks draws all blocks. -/
theorem drawn_redraw {i : Int} (hs : e.store.bare.Sound)
    (htr : ∀ t ∈ e.workspace, ∃ tree, e.store.bare.Shows tree (.stack t))
    (h : redraw i e = .ok u e') (hi : i < e.workspace.length) : e'.Drawn := by
  have hu : e'.unseen = e.unseen := (displays_redraw i).ok h
  have hw : e'.workspace = e.workspace := (congrArg Editor.workspace hu :)
  intro b hb
  rw [Reaches, show e'.forest.store = e.store.bare from bare_of_unseen hu] at hb
  obtain ⟨t, ht, hpa⟩ := Store.exists_path_of_reached hb
  rw [show e'.forest.workspace = e.workspace from hw] at ht
  unfold redraw refreshAll at h
  rw [get_bind, if_pos hi] at h
  obtain ⟨_, e4, hl, h⟩ := bind_eq_ok.1 h
  obtain ⟨-, rfl⟩ := pure_eq_ok.1 h
  obtain ⟨k, hk⟩ := List.getElem?_of_mem ht
  have hm : (t, k) ∈ e.workspace.zipIdx := List.mem_zipIdx_iff_getElem?.2 hk
  obtain ⟨tree, hte⟩ := htr t ht
  have hdr : Leads (·.canvas.Holds e.store.bare) (render t) fun _ e1 => e1.canvas.Marks e.store.bare b := by
    intro e1 r e2 he1 hr
    obtain ⟨size, e3, hse, hr⟩ := bind_eq_ok.1 hr
    obtain ⟨c, hst, rfl⟩ := sketch_eq_ok.1 hse
    rw [get_bind] at hr
    obtain ⟨-, rfl⟩ := ofExcept_eq_ok.1 hr
    exact draws_of_path hs hte hpa _ _ _ he1 hst
  -- the round that draws the stack, among rounds that keep what was drawn
  refine (leads_forIn (R := Retouches) (p := fun e1 : Editor => e1.canvas.Holds e.store.bare)
    (q := fun e1 : Editor => e1.canvas.Marks e.store.bare b) (fun _ _ => Canvas.Redrawn.holds)
    (fun _ _ => Canvas.Redrawn.marks) hm
    (fun p => .bind (retouches_render p.1) fun _ => .bind (retouches_setRendering ..) fun _ => .pure _)
    (fun p e r e' h => ?_) (hdr.bind fun _ => ?_) e _ _ rfl hl).2.2
  · obtain ⟨_, _, -, h⟩ := bind_eq_ok.1 h
    obtain ⟨_, _, -, h⟩ := bind_eq_ok.1 h
    exact (pure_eq_ok.1 h).1.symm
  · exact (Keeps.bind (retouches_setRendering ..) fun _ => .pure _).leads fun _ _ =>
      Canvas.Redrawn.marks

theorem drawn_of_nil (h : e.workspace = []) : e.Drawn := by
  intro b hb
  obtain ⟨t, ht, -⟩ := Store.exists_path_of_reached hb
  rw [show e.forest.workspace = [] from h] at ht
  cases ht

/-- Blocks of a calm editor were drawn when all stacks were. -/
theorem Editor.Renewed.drawn (h : e'.Renewed) (he : e'.Calm) : e'.Drawn := by
  rcases h with hn | ⟨i, e, e1, hr, hi, hv⟩
  · exact drawn_of_nil hn
  · have hs : e'.store = e1.store := congrArg Prod.fst hv
    have hw : e'.workspace = e1.workspace := congrArg (fun v => v.2.1) hv
    have hu : e1.unseen = e.unseen := (displays_redraw i).ok hr
    have hba : e'.store.bare = e.store.bare := hs ▸ bare_of_unseen hu
    have hsa : e'.workspace = e.workspace := hw.trans (congrArg Editor.workspace hu :)
    have hd : e1.Drawn := by
      refine drawn_redraw (hba ▸ he.sound.store) (fun t ht => ?_) hr hi
      rw [← hba]
      exact he.ready.trees t (hsa ▸ ht)
    intro b hb
    rw [Reaches, show e'.forest.store = e1.forest.store from congrArg Store.bare hs,
      show e'.forest.workspace = e1.forest.workspace from hw] at hb
    rw [hs]
    exact hd b hb

/-! ## What hangs on the mouse -/

theorem Editor.Poised.of_hand (h : e.Poised) (hh : e'.hand = e.hand) : e'.Poised := by
  simp only [hand, Prod.mk.injEq] at hh
  exact h.congr hh.1 hh.2.1 hh.2.2

theorem hand_redraw (i : Int) : Keeps (Same hand) (redraw i) :=
  (displays_redraw i).mono fun _ _ (h : _ = _) => (congrArg hand h :)

theorem hand_assign (b : BlockId) (i : Nat) (v : Value) : Keeps (Same hand) (assign b i v) :=
  .bind reads_store.keeps fun _ => .ite (fun _ => .modify fun _ => rfl) fun _ => .throw _

theorem hand_renameEverywhere (old new : Value) : Keeps (Same hand) (renameEverywhere old new) :=
  keeps_renameEverywhere old (fun b i e _ => (hand_assign b i new).run e) hand_redraw

theorem hand_loadProject (path : String) : Keeps (Same hand) (loadProject path) := by
  refine keeps_loadProject (R := Same hand) (fun _ => rfl) (fun json i => ⟨fun e => ?_⟩) (fun _ _ => rfl) path
  rw [takeStack_run]
  cases Saved.stack e.definitions json e.store with
  | error f s => rfl
  | ok t s => exact (hand_redraw i).run _

theorem Poses.hand_eq (h : Poses purpose e e') : e'.hand = e.hand := h.part hand fun _ _ => rfl

/-- Keys change nothing that hangs on the mouse. -/
theorem Keys.hand_eq {code : Int} (h : Keys code text e e') : e'.hand = e.hand := by
  cases h with
  | type _ _ _ _ _ ha hdr =>
    exact ((hand_redraw _).ok hdr).trans ((hand_assign ..).ok ha)
  | ask _ _ hp => exact hp.hand_eq
  | drift hd => exact hd.part hand fun _ _ _ _ _ => rfl

/-- Answers to dialogs change nothing that hangs on the mouse. -/
theorem Answers.hand_eq {button : Button} (h : Answers button text e purpose e') :
    e'.hand = e.hand := by
  cases h with
  | nothing => rfl
  | create ha hda =>
    have hfi := (hand_assign ..).ok ha
    have hdr := (hand_redraw _).ok hda
    exact hdr.trans hfi
  | rename _ hf hd hre =>
    obtain ⟨-, rfl⟩ := forgetName_eq_ok hf
    obtain rfl := declareName_eq_ok hd
    have hr := (hand_renameEverywhere ..).ok hre
    exact hr
  | delete _ hf hre =>
    obtain ⟨-, rfl⟩ := forgetName_eq_ok hf
    have hr := (hand_renameEverywhere ..).ok hre
    exact hr
  | save hp =>
    have has := hp.hand_eq
    exact has
  | load _ hlo =>
    have hl := (hand_loadProject text).ok hlo
    exact hl
  | failed _ hlo hp =>
    have hl := (hand_loadProject text).error hlo
    exact hp.hand_eq.trans hl

theorem Editor.dialog_of_frame (h : e'.frame = e.frame) : e'.dialog = e.dialog :=
  (frame_eq.1 h).2.2.1

/-- Clicks open no dialog. -/
theorem Pressing.dialog_eq {button : Int} {act : Edit Unit} (ha : Pressing button act)
    (hs : e.core.Steady)
    (h : act e = .ok u e') : e'.dialog = e.dialog := by
  cases ha with
  | nothing => exact (pure_eq_ok.1 h).2 ▸ rfl
  | pan => exact modify_eq_ok.1 h ▸ rfl
  | click =>
    rcases clickWorkspace_eq_ok h with hre | ⟨r, i, hr, hc⟩
    · exact dialog_of_frame (frame_redraw hre)
    have hi := (List.getElem?_eq_some_iff.1 (hs.pictured.stack_eq i r hr)).1
    rcases struck_clickTo (detaches_removeStack i) (by exact_mod_cast hi) hc with rfl | hst
    · rfl
    · exact hst.dialog_eq
  | rightClick =>
    rcases rightClickWorkspace_eq_ok h with hre | ⟨r, i, -, hc⟩
    · exact dialog_of_frame (frame_redraw hre)
    · exact dialog_of_frame (glances_rightClickTo hc).1
  | palette =>
    cases clickPalette_cases h with
    | nothing | block => rfl
    | category _ hd => exact (congrArg dialog (offers_drawPalette.ok hd).1 :)

/-- An event opens a dialog or changes what hangs on the mouse, but not both. -/
theorem dialog_or_hand_handle (hs : e.core.Steady) (hai : e.dialog = none → e.Aiming) {ev : Event}
    (hor : e.Orderly ev) (h : handle ev e = .ok u e') : e'.dialog = none ∨ e'.hand = e.hand := by
  cases handle_cases h with
  | dialog => exact .inr rfl
  | answer _ _ ha =>
    have hh := ha.hand_eq
    exact .inr hh
  | drift hd hdi => exact .inl ((hdi.part dialog fun _ _ _ _ _ => rfl).trans hd)
  | down hd hdo =>
    rcases handleDown_cases hdo with
      ⟨-, rfl⟩ | ⟨he, m, e1, hm, hse, h1, rfl⟩ | ⟨act, hac, h⟩
    · exact .inr rfl
    · have hc := chosen_chooseOption (hor.menu m _ hd rfl he hm hse) h1
      exact hc.dialog.imp (fun hsa => hsa.trans hd) fun hop => hop.1
    · refine .inl ((hac.dialog_eq ?_ h).trans hd)
      exact { hs with menu := nofun }
  | up hd hup =>
    obtain ⟨e1, hp, hca⟩ := handleUp_cases hup
    have ho := offers_drawPalette.ok hp
    have hd1 : e1.dialog = none := (dialog_of_frame ho.frame_eq).trans hd
    left
    rcases hca with rfl | rfl | rfl | rfl | ⟨cursor, e2, -, hcu, hdr, rfl⟩
    · exact hd1
    · exact hd1
    · exact hd1
    · exact hd1
    · rcases dropCursor_cases ((hai hd).offers ho) hcu hdr with
        ⟨p, hr⟩ | ⟨c, s, -, hr, -⟩
      · exact (dialog_of_frame (frame_redraw hr)).trans hd1
      · exact (dialog_of_frame (frame_redraw hr)).trans hd1
  | key _ hk => exact .inr hk.hand_eq

/-! ## Runs -/

/-- A state that the editor reaches from an empty project by considered events, opening only files with
such texts, where the window is drawn between the events. -/
inductive Attained (files : String → Prop) (considered : Editor → Event → Prop) :
    Phase → Editor → Prop where
  /-- The editor was set up. -/
  | start {width height : Num} {folder : Folder} {u : Unit} {e : Editor}
    (h : setUp (.blank width height Catalogue.blocks .empty [] folder) = .ok u e) :
    Attained files considered .waiting e
  /-- The mouse moves and keys are pressed or released. -/
  | devices {phase : Phase} {e : Editor} (d : Devices) (h : Attained files considered phase e) :
    Attained files considered phase { e with devices := d }
  /-- An event is handled. -/
  | handle {e e' : Editor} {ev : Event} {u : Unit} (h : Attained files considered .waiting e)
    (hev : considered e ev)
    (hfile : ∀ path text, e.opens ev = some path → e.scene.folder.readPacked path = .ok text →
      files text)
    (hrun : handle ev e = .ok u e') : Attained files considered .handled e'
  /-- Time passes. -/
  | update {phase : Phase} {e e' : Editor} {dt : Num} {u : Unit}
    (h : Attained files considered phase e) (hrun : update dt e = .ok u e') :
    Attained files considered .waiting e'
  /-- The window is drawn. -/
  | draw {e e' : Editor} {u : Unit} (h : Attained files considered .waiting e)
    (hrun : drawWindow e = .ok u e') : Attained files considered .waiting e'

/-- A text that saving writes in a run of considered events that opens such texts only. -/
inductive Kept (considered : Editor → Event → Prop) : String → Prop where
  | save {phase : Phase} {e : Editor} {text : String}
    (h : Attained (Kept considered) considered phase e)
    (htext : projectText e.store e.workspace e.globals = .ok text) : Kept considered text

section Runs

variable {files : String → Prop} {considered : Editor → Event → Prop} {phase : Phase}

/-- The window need not be drawn. -/
theorem Reachable.attained (h : Reachable files considered phase e) :
    Attained files considered phase e := by
  induction h with
  | start hr => exact .start hr
  | devices d _ ih => exact .devices d ih
  | handle _ hev hf hr ih => exact .handle ih hev hf hr
  | update _ hr ih => exact .update ih hr

/-- What holds in every run, whatever the events: the editor is in order. -/
structure Editor.InOrder (e : Editor) (phase : Phase) : Prop where
  steady : e.core.Steady
  filled : e.forest.Filled
  composed : e.Composed e.store
  aiming : phase = .waiting → e.dialog = none → e.Aiming

/-- The text of a project that is in order. -/
def SavesInOrder (text : String) : Prop :=
  ∃ (e : Editor) (phase : Phase), e.InOrder phase ∧ projectText e.store e.workspace e.globals = .ok text

theorem SavesInOrder.composed (h : SavesInOrder text) : SavesComposed text := by
  obtain ⟨e, phase, he, ht⟩ := h
  exact ⟨e, he.steady, he.composed, ht⟩

theorem SavesInOrder.filled (h : SavesInOrder text) : Saves Filled text := by
  obtain ⟨e, phase, he, ht⟩ := h
  exact ⟨e, he.steady, he.filled, ht⟩

/-- Drawing the window changes nothing. -/
theorem Editor.InOrder.inks (h : e.InOrder phase) (hi : e'.clearStrokes = e.clearStrokes) :
    e'.InOrder phase := by
  have hcr : e'.core = e.core := (congrArg core hi :)
  have hf : e'.forest = e.forest := congrArg Core.forest hcr
  have hco : e'.Composed e.store := h.composed.congr (congrArg posture hi :)
  refine ⟨hcr ▸ h.steady, hf ▸ h.filled, hco.now, fun hp hd => ?_⟩
  have ha := h.aiming hp ((congrArg dialog hi :).symm.trans hd)
  intro c hc
  have hc' : e.candidate = some c := (congrArg candidate hi :).symm.trans hc
  have hw : e'.workspace = e.workspace := (congrArg Editor.workspace hi :)
  rw [hw, hf]
  exact ha c hc'

namespace Attained

theorem inOrder (h : Attained files considered phase e)
    (hfiles : ∀ text, files text → SavesInOrder text) : e.InOrder phase := by
  induction h with
  | @start _ _ _ _ e hr =>
    have h : Reachable (fun _ => False) (fun _ _ => True) .waiting e := .start hr
    have hn : ∀ text, False → Saves NoFile text := fun _ => False.elim
    obtain ⟨hs, ha⟩ := h.steady hn
    exact ⟨hs, h.filled fun _ => False.elim, composed_of_setUp hr, ha⟩
  | devices d _ ih => exact ⟨ih.steady, ih.filled, ih.composed.congr rfl, ih.aiming⟩
  | handle _ _ hf hr ih =>
    have hsa := fun path text hp ht => hfiles text (hf path text hp ht)
    have hc := ih.composed.handle ih.steady (ih.aiming rfl)
      (fun path text hp ht => (hsa path text hp ht).composed) hr
    rcases handle_eq_ok ih.steady (ih.aiming rfl)
      (fun path text hp ht => (hsa path text hp ht).filled) hr with
      hm | ⟨-, hst, hsh⟩ | ⟨-, hst, hcr⟩
    · obtain ⟨hst, hch⟩ := hm ih.steady
      exact ⟨hst, ih.filled.changes ih.steady.forest (fun _ => id) hch, hc.now, nofun⟩
    · exact ⟨hst, ih.filled.share ih.steady.forest hsh, hc.now, nofun⟩
    · exact ⟨hst, ih.filled.crown ih.steady.forest hcr, hc.now, nofun⟩
  | update _ hr ih =>
    have hm : Moves NoFile _ _ := (moves_update _).ok hr
    obtain ⟨hst, hch⟩ := hm ih.steady
    exact ⟨hst, ih.filled.changes ih.steady.forest (fun _ => False.elim) hch,
      (ih.composed.update ih.steady hr).now, fun _ => aiming_update ih.steady hr⟩
  | draw _ hr ih => exact ih.inks (inks_drawWindow.ok hr)

end Attained

/-- Texts that are saved in runs hold projects in order. -/
theorem Kept.savesInOrder (h : Kept considered text) : SavesInOrder text := by
  refine Kept.rec (motive_1 := fun text _ => SavesInOrder text)
    (motive_2 := fun phase e _ => Attained SavesInOrder considered phase e) ?_ ?_ ?_ ?_ ?_ ?_ h
  · intro phase e text _ ht ih
    exact ⟨e, phase, ih.inOrder fun _ => id, ht⟩
  · intro _ _ _ _ _ hr
    exact .start hr
  · intro _ _ d _ ih
    exact .devices d ih
  · intro _ _ _ _ _ hev _ hr ih ihfile
    exact .handle ih hev ihfile hr
  · intro _ _ _ _ _ _ hr ih
    exact .update ih hr
  · intro _ _ _ _ hr ih
    exact .draw ih hr

/-! ## Heedful runs -/

/-- An orderly event after which nothing stands at two places. -/
def Editor.Heedful (e : Editor) (ev : Event) : Prop := e.Orderly ev ∧ ¬e.SharesOn ev

namespace Attained

variable (hfiles : ∀ text, files text → SavesInOrder text)

include hfiles

section

variable (h : Attained files Heedful phase e)
include h

/-- In every heedful run the editor is calm. -/
theorem calm : e.Calm := by
  have ho := h.inOrder hfiles
  refine ⟨ho.steady, ?_, ho.filled, ho.composed.housed, ho.composed.located,
    ho.composed.eased⟩
  clear ho
  induction h with
  | @start _ _ _ _ e hr =>
    have h : Reachable (fun _ => False) (fun _ _ => False) .waiting e := .start hr
    exact h.unshared (fun _ => False.elim) fun _ _ => False.elim
  | devices d _ ih => exact ih
  | handle h hev hfi hr ih =>
    have ho := h.inOrder hfiles
    rcases handle_eq_ok ho.steady (ho.aiming rfl)
      (fun path text hp ht => (hfiles text (hfi path text hp ht)).filled) hr with
      hm | ⟨hsh, -, -⟩ | ⟨-, -, hc⟩
    · exact ih.changes ho.steady.forest (hm ho.steady).2
    · exact absurd hsh hev.2
    · exact ih.crown ho.steady.forest hc
  | update h hr ih =>
    have hs := (h.inOrder hfiles).steady
    exact ih.changes hs.forest ((lingers_update hr).moves hs).2
  | @draw e e' _ _ hr ih =>
    have hf : e'.forest = e.forest := (congrArg forest (inks_drawWindow.ok hr) :)
    exact hf ▸ ih

/-- In every heedful run each stack has a rendering, and what is edited or named belongs to a stack. -/
theorem attentive_shown : e.Attentive ∧ e.Shown := by
  have hd : e.Attentive ∧ ∃ camera, e.Depicted camera := by
    induction h with
    | @start _ _ _ _ e hru =>
      have h : Watched (fun _ => False) Orderly .waiting True e := .start hru
      obtain ⟨ha, camera, -, hd⟩ := h.exists_depicted fun _ => False.elim
      exact ⟨ha, camera, hd⟩
    | devices d _ ih =>
      obtain ⟨ha, camera, hd⟩ := ih
      exact ⟨ha.congr rfl, camera, hd.congr rfl⟩
    | handle h hev hfi hru ih =>
      obtain ⟨ha, camera, hd⟩ := ih
      have ho := h.inOrder hfiles
      have ho' := (Attained.handle h hev hfi hru).inOrder hfiles
      have hse := serves_handle ho.steady (ho.aiming rfl) ha hev.1 hru
      refine ⟨hse.attentive, ?_⟩
      rcases hse.shown with hre | hg
      · exact ⟨_, hre.depicted ho'.steady.forest.store⟩
      · exact ⟨camera, hd.glances ho.steady.forest hg⟩
    | update h hru ih =>
      obtain ⟨ha, camera, hd⟩ := ih
      have hs := (h.inOrder hfiles).steady
      obtain ⟨hf, -, hsh⟩ := update_eq_ok hs hd hru
      refine ⟨ha.congr hf, ?_⟩
      rcases hsh with hd' | hg
      · exact ⟨_, hd'⟩
      · exact ⟨camera, hd.glances hs.forest hg⟩
    | draw _ hru ih =>
      obtain ⟨ha, camera, hd⟩ := ih
      have hin := inks_drawWindow.ok hru
      exact ⟨ha.congr (congrArg frame hin :), camera,
        hd.congr (congrArg view hin :)⟩
  obtain ⟨ha, camera, hd⟩ := hd
  refine ⟨ha, fun i t hi => ?_⟩
  obtain ⟨tree, ht⟩ := (h.calm hfiles).ready.trees t (List.mem_of_getElem? hi)
  obtain ⟨-, r, hr, -⟩ := hd i t tree hi ht
  exact ⟨r, hr⟩

/-- In every heedful run all blocks of the workspace were drawn. -/
theorem drawn : e.Drawn := by
  induction h with
  | start hr => exact drawn_of_nil (congrArg Editor.workspace (offers_setUp.ok hr).1 :)
  | devices d _ ih => exact ih
  | handle h hev hfi hr ih =>
    have ho := h.inOrder hfiles
    have hc := ho.composed.handle ho.steady (ho.aiming rfl)
      (fun path text hp ht => (hfiles text (hfi path text hp ht)).composed) hr
    have ha := (h.attentive_shown hfiles).1
    rcases (serves_handle ho.steady (ho.aiming rfl) ha hev.1 hr).shown with
      hre | hg
    · exact hre.drawn ((Attained.handle h hev hfi hr).calm hfiles)
    · exact ih.recalls ho.steady.forest hg.workspace_eq hg.recalls hc.since
  | update h hr ih => exact (lingers_update hr).drawn (h.calm hfiles) ih
  | @draw e e' _ _ hr ih =>
    have hi := inks_drawWindow.ok hr
    have hf : e'.forest = e.forest := (congrArg forest hi :)
    intro b hb
    rw [store_of_clearStrokes hi]
    exact ih b (hf ▸ hb)

/-- When the next event can come, or a dialog is open, the dragged stack was measured. -/
theorem poised (hp : phase = .waiting ∨ e.dialog ≠ none) : e.Poised := by
  induction h with
  | @start _ _ _ _ e hr =>
    have ho := (offers_setUp.ok hr).1
    have hcu : e.cursor = none := (congrArg Editor.cursor ho :)
    have hca : e.candidate = none := (congrArg candidate ho :)
    refine ⟨fun t ht => ?_, fun c hc => ?_⟩
    · cases hcu.symm.trans ht
    · cases hca.symm.trans hc
  | devices d _ ih => exact (ih hp).of_hand rfl
  | handle h hev hf hr ih =>
    have hor := h.inOrder hfiles
    rcases dialog_or_hand_handle hor.steady (hor.aiming rfl) hev.1 hr with hd | hh
    · exact absurd hd (hp.resolve_left nofun)
    · exact (ih (.inl rfl)).of_hand hh
  | @update _ e _ _ _ h hr ih =>
    by_cases hd : e.dialog = none
    · exact (poised_update (h.inOrder hfiles).steady hd hr).1
    · exact update_asking hd hr ▸ ih (.inr hd)
  | draw _ hr ih => exact (ih (.inl rfl)).of_hand (congrArg hand (inks_drawWindow.ok hr) :)

/-- When the next event can go to a menu, the marked line is one of its lines. -/
theorem marked (hp : phase = .waiting) (hd : e.dialog = none) : e.Marked := by
  induction h with
  | @start _ _ _ _ e hr =>
    have hm : e.menu = none := (congrArg menu (offers_setUp.ok hr).1 :)
    intro hso
    rw [hm] at hso
    cases hso
  | devices d _ ih => exact ih hp hd
  | handle => cases hp
  | @update _ e e' _ _ h hr =>
    have ht : e'.tools = e.tools := congrArg Prod.fst (agenda_update hr)
    have hsa : e'.dialog = e.dialog := congrArg (fun tools => tools.2.2.2.2.2) ht
    exact (poised_update (h.inOrder hfiles).steady (hsa ▸ hd) hr).2
  | @draw e e' _ _ hr ih =>
    have hi := inks_drawWindow.ok hr
    have hm : e'.menu = e.menu := (congrArg menu hi :)
    have hs : e'.selected = e.selected := (congrArg selected hi :)
    have hre : e'.optionRects = e.optionRects := (congrArg optionRects hi :)
    unfold Marked
    rw [hm, hs, hre]
    exact ih rfl ((congrArg dialog hi :).symm.trans hd)

end

end Attained

end Runs

end BlockStudio
