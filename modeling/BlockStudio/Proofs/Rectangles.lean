import BlockStudio.Proofs.Ownership
import BlockStudio.Proofs.Refreshing

/-!
# Where clicks go

The editor finds out what a click hits from the rectangles that it remembers.  `Watched` follows a run
and notes whether the camera sees what it saw when the rectangles were last changed.  In every orderly
run the rectangles are those of some camera, so they never lag behind a change of the stacks; and as
long as the camera sees the same since they were last changed, they are those of the present camera.
The condition on the camera is needed: moving the camera with the mouse leaves them behind.
-/

namespace BlockStudio

open Editor

variable {e e' : Editor} {c c' camera : Camera}

/-! ## What a camera sees -/

/-- Where a camera is and how much it enlarges. -/
def Camera.sight (c : Camera) : Except Fault Num × Except Fault Num × Except Fault Num :=
  (c.x.value, c.y.value, c.zoom.value)

theorem rendering_of_sight (h : c'.sight = c.sight) (t : StackId) (full : Size) :
    (e.withCamera c').rendering t full = (e.withCamera c).rendering t full := by
  simp only [Camera.sight, Prod.mk.injEq] at h
  obtain ⟨hx, hy, hz⟩ := h
  simp only [rendering, toView, withCamera, store, hx, hy, hz]

theorem Editor.Depicted.of_sight (hd : e.Depicted c) (h : c'.sight = c.sight) : e.Depicted c' := by
  intro i t tree hi ht
  obtain ⟨hb, r, hr, hre⟩ := hd i t tree hi ht
  exact ⟨hb, r, hr, (rendering_of_sight h t _).trans hre⟩

/-- Drawing a stack gives the rendering that is remembered. -/
theorem Editor.Depicted.render (hd : e.Depicted camera) (hs : e.store.bare.Sound) {i : Nat}
    {t : StackId} {tree : Tree} (hi : e.workspace[i]? = some t)
    (ht : e.store.bare.Shows tree (.stack t)) :
    ∃ r e', e.renderings[i]? = some (some r) ∧ Edit.render t (e.withCamera camera) = .ok r e' := by
  obtain ⟨hb, r, hr, hre⟩ := hd i t tree hi ht
  obtain ⟨hk, hf⟩ := hs.known_fitted ht
  have hg : e.store.bare.Grown (e.withCamera camera).canvas.store :=
    Store.grown_of_bare_eq (Store.bare_bare _).symm
  obtain ⟨size, c', hsk, hsi⟩ := exists_sketch_stack hg hk hb ht
  obtain rfl := hsi hf
  have hdr : Edit.sketch (Sketch.stack t) (e.withCamera camera) =
      .ok tree.measure { e.withCamera camera with canvas := c' } := sketch_eq_ok.2 ⟨c', hsk, rfl⟩
  have hu := (depicts_stack t).pictures.displays.ok hdr
  have hp : ({ e.withCamera camera with canvas := c' } : Editor).rendering t tree.measure =
      .ok r := (rendering_of_unseen hu t _).trans hre
  refine ⟨r, { e.withCamera camera with canvas := c' }, hr, bind_eq_ok.2 ⟨_, _, hdr, ?_⟩⟩
  exact ofExcept_eq_ok.2 ⟨hp, rfl⟩

/-! ## Runs -/

/-- A run of the editor, and whether the camera sees what it saw when the renderings last changed. -/
inductive Watched (files : String → Prop) (considered : Editor → Event → Prop) :
    Phase → Prop → Editor → Prop where
  /-- The editor was set up. -/
  | start {width height : Num} {folder : Folder} {u : Unit} {e : Editor}
    (h : Edit.setUp (.blank width height Catalogue.blocks .empty [] folder) = .ok u e) :
    Watched files considered .waiting True e
  /-- The mouse moves and keys are pressed or released. -/
  | devices {phase : Phase} {fresh : Prop} {e : Editor} (d : Devices)
    (h : Watched files considered phase fresh e) :
    Watched files considered phase fresh { e with devices := d }
  /-- An event is handled. -/
  | handle {fresh : Prop} {e e' : Editor} {ev : Event} {u : Unit}
    (h : Watched files considered .waiting fresh e) (hev : considered e ev)
    (hfile : ∀ path text, e.opens ev = some path → e.scene.folder.readPacked path = .ok text →
      files text)
    (hrun : Edit.handle ev e = .ok u e') :
    Watched files considered .handled
      (e'.renderings ≠ e.renderings ∨ fresh ∧ e'.camera.sight = e.camera.sight) e'
  /-- Time passes. -/
  | update {phase : Phase} {fresh : Prop} {e e' : Editor} {dt : Num} {u : Unit}
    (h : Watched files considered phase fresh e) (hrun : Edit.update dt e = .ok u e') :
    Watched files considered .waiting
      (e'.renderings ≠ e.renderings ∨ fresh ∧ e'.camera.sight = e.camera.sight) e'

section Watched

variable {files : String → Prop} {considered : Editor → Event → Prop} {phase : Phase} {fresh : Prop}

theorem Watched.reachable (h : Watched files considered phase fresh e) :
    Reachable files considered phase e := by
  induction h with
  | start hr => exact .start hr
  | devices d _ ih => exact .devices d ih
  | handle _ hev hf hr ih => exact .handle ih hev hf hr
  | update _ hr ih => exact .update ih hr

theorem Reachable.mono {considered' : Editor → Event → Prop} (h : Reachable files considered phase e)
    (hm : ∀ e ev, considered e ev → considered' e ev) : Reachable files considered' phase e := by
  induction h with
  | start hr => exact .start hr
  | devices d _ ih => exact .devices d ih
  | handle _ hev hf hr ih => exact .handle ih (hm _ _ hev) hf hr
  | update _ hr ih => exact .update ih hr

/-- Every run can be watched. -/
theorem Reachable.exists_watched (h : Reachable files considered phase e) :
    ∃ fresh, Watched files considered phase fresh e := by
  induction h with
  | start hr => exact ⟨_, .start hr⟩
  | devices d _ ih =>
    obtain ⟨_, hw⟩ := ih
    exact ⟨_, .devices d hw⟩
  | handle _ hev hf hr ih =>
    obtain ⟨_, hw⟩ := ih
    exact ⟨_, .handle hw hev hf hr⟩
  | update _ hr ih =>
    obtain ⟨_, hw⟩ := ih
    exact ⟨_, .update hw hr⟩

/-- The step of the argument: whatever draws all stacks makes the renderings right for the present
camera, and a glance leaves them right for the camera they were right for. -/
theorem exists_camera (hs : e.forest.Sound) (hd : e.Depicted camera)
    (hc : fresh → camera = e.camera) (hsh : e'.Depicted e'.camera ∨ Glances e e') :
    ∃ camera', ((e'.renderings ≠ e.renderings ∨ fresh ∧ e'.camera.sight = e.camera.sight) →
      camera' = e'.camera) ∧ e'.Depicted camera' := by
  rcases hsh with hde | hg
  · exact ⟨e'.camera, fun _ => rfl, hde⟩
  · have hd' := hd.glances hs hg
    by_cases hf : fresh ∧ e'.camera.sight = e.camera.sight
    · refine ⟨e'.camera, fun _ => rfl, hd'.of_sight ?_⟩
      rw [hc hf.1]
      exact hf.2
    · exact ⟨camera, fun h => absurd h (not_or.2 ⟨not_not.2 hg.renderings_eq, hf⟩), hd'⟩

/-- In an orderly run the renderings are right for some camera, and for the present one as long as it
sees the same since they were last changed. -/
theorem Watched.exists_depicted (h : Watched files Orderly phase fresh e)
    (hf : ∀ text, files text → Saves (fun _ => True) text) :
    e.Attentive ∧ ∃ camera, (fresh → camera = e.camera) ∧ e.Depicted camera := by
  induction h with
  | @start width height folder _ e hr =>
    have ho := offers_setUp.ok hr
    have hwo : e.workspace = [] := (congrArg workspace ho.1 :)
    have hb : (blank width height Catalogue.blocks .empty [] folder).Attentive :=
      attentive_idle (idle_of_not_editing rfl) rfl
    exact ⟨hb.congr ho.frame_eq, _, fun _ => rfl, depicted_of_nil hwo _⟩
  | devices d _ ih =>
    obtain ⟨ha, camera, hc, hd⟩ := ih
    exact ⟨ha.congr rfl, camera, hc, hd.congr rfl⟩
  | handle hw hev hfi hr ih =>
    obtain ⟨ha, camera, hc, hd⟩ := ih
    obtain ⟨hs, hai⟩ := hw.reachable.steady hf
    have hs' := ((Watched.handle hw hev hfi hr).reachable.steady hf).1
    have hse := serves_handle hs (hai rfl) ha hev hr
    refine ⟨hse.attentive, exists_camera hs.forest hd hc ?_⟩
    exact hse.shown.imp_left fun hre => hre.depicted hs'.forest.store
  | update hw hr ih =>
    obtain ⟨ha, camera, hc, hd⟩ := ih
    have hs := (hw.reachable.steady hf).1
    obtain ⟨hfr, -, hsh⟩ := update_eq_ok hs hd hr
    exact ⟨ha.congr hfr, exists_camera hs.forest hd hc hsh⟩

end Watched

/-- In every orderly run there is one rendering for each stack, and it is what drawing the stack under
some camera gives: it shows what the stack is and where it is.  The camera is the present one as long
as it sees what it saw when the renderings were last changed. -/
theorem renderings_match_drawing {phase : Phase} {fresh : Prop}
    (h : Watched (Written fun _ _ => True) Editor.Orderly phase fresh e) :
    e.renderings.length = e.workspace.length ∧ ∃ camera, (fresh → camera = e.camera) ∧
      ∀ (i : Nat) t tree, e.workspace[i]? = some t → e.store.bare.Shows tree (.stack t) →
        ∃ r e', e.renderings[i]? = some (some r) ∧
          Edit.render t (e.withCamera camera) = .ok r e' := by
  have hfiles : ∀ text, Written (fun _ _ => True) text → Saves (fun _ => True) text :=
    fun _ => Written.saves
  have hs := (h.reachable.steady hfiles).1
  obtain ⟨-, camera, hcamera, hd⟩ := h.exists_depicted hfiles
  exact ⟨hs.pictured.length_eq, camera, hcamera, fun i t tree hi => hd.render hs.forest.store hi⟩

/-! ## Two runs -/

/-- Without a menu and without opening a file an event is orderly and duplicates nothing. -/
theorem orderly_of_no_menu {ev : Event} (h : (e.menu.isNone && (e.opens ev).isNone) = true) :
    (e.Orderly ev ∧ ¬e.SharesOn ev) ∧ e.opens ev = none := by
  simp only [Bool.and_eq_true, Option.isNone_iff_eq_none] at h
  obtain ⟨hme, ho⟩ := h
  refine ⟨⟨⟨fun m _ _ _ _ hm => ?_, fun path hp => ?_⟩, ?_⟩, ho⟩
  · cases hme.symm.trans hm
  · cases ho.symm.trans hp
  · rintro ⟨-, -, -, m, hm, -⟩
    cases hme.symm.trans hm

/-- Whether the camera rests. -/
def Camera.rests (c : Camera) : Bool := c.x.ended && c.y.ended && c.zoom.ended

/-- Whether a button that goes up over the loop changes its remembered height, with a camera that
rests. -/
def Editor.growsOnDrop (e : Editor) : Bool :=
  let heights (e : Editor) := e.renderings.map (·.map (·.full.h))
  (e.menu.isNone && e.dialog.isNone) &&
    endsIn (Edit.handle (.up 1)) { e with devices := ⟨⟨625, 430⟩, []⟩ } fun e1 =>
      (heights e1 != heights e && e1.camera.rests) &&
        endsIn (Edit.update 0) e1 fun e2 => e2.workspace.length == 1

/-- After a wait was dropped into the body of a loop, the rendering of the loop is what drawing it
gives. -/
theorem rendering_of_filled_body :
    ∃ fresh e t tree, Watched (Written fun _ _ => True) Editor.Orderly .waiting fresh e ∧ fresh ∧
      e.workspace[0]? = some t ∧ e.store.bare.Shows tree (.stack t) ∧
      ∃ r e', e.renderings[0]? = some (some r) ∧ Edit.render t e = .ok r e' := by
  have hfiles : ∀ text, Written (fun _ _ => True) text → Saves (fun _ => True) text :=
    fun _ => Written.saves
  obtain ⟨e, he, hend⟩ : ∃ e, Reachable (Written fun _ _ => True)
      (fun e ev => e.Orderly ev ∧ ¬e.SharesOn ev) .waiting e ∧ e.growsOnDrop = true :=
    exists_reachable_of_play (fun _ _ => orderly_of_no_menu) (fillsBody.take 4) Editor.growsOnDrop
      (by decide +kernel)
  obtain ⟨⟨hmenu, hdialog⟩, hend⟩ := by
    simpa only [Editor.growsOnDrop, Bool.and_eq_true, Option.isNone_iff_eq_none] using hend
  obtain ⟨_, e₁, hhandle, hend⟩ := exists_of_endsIn hend
  obtain ⟨⟨hgrown, hrests⟩, hend⟩ := by simpa only [Bool.and_eq_true] using hend
  obtain ⟨_, e₂, hupdate, hlength⟩ := exists_of_endsIn hend
  -- the run goes on with the drop and an update
  have hfile : ∀ path text, ({ e with devices := ⟨⟨625, 430⟩, []⟩ } : Editor).opens (.up 1) =
      some path → e.scene.folder.readPacked path = .ok text → Written (fun _ _ => True) text := by
    intro path text hpath
    simp [Editor.opens, hdialog] at hpath
  have hev : ({ e with devices := ⟨⟨625, 430⟩, []⟩ } : Editor).Orderly (.up 1) ∧
      ¬({ e with devices := ⟨⟨625, 430⟩, []⟩ } : Editor).SharesOn (.up 1) :=
    (orderly_of_no_menu (by simp [hmenu, Editor.opens, hdialog])).1
  have he₁ := (he.devices ⟨⟨625, 430⟩, []⟩).handle hev hfile hhandle
  obtain ⟨_, hwatched⟩ := (he.mono fun _ _ => And.left).exists_watched
  have hw₁ := (hwatched.devices ⟨⟨625, 430⟩, []⟩).handle hev.1 hfile hhandle
  have hw₂ := hw₁.update hupdate
  -- the renderings changed, and the camera has been resting since
  have hne : e₁.renderings ≠ e.renderings := fun heq => by simp [heq] at hgrown
  obtain ⟨-, camera, -, hd⟩ := hw₁.exists_depicted hfiles
  obtain ⟨-, hcamera, -⟩ := update_eq_ok (he₁.steady hfiles).1 hd hupdate
  have hsight : e₂.camera.sight = e₁.camera.sight := by
    simp only [Camera.rests, Bool.and_eq_true] at hrests
    rw [Camera.advance_of_ended hrests.1.1 hrests.1.2 hrests.2, or_self] at hcamera
    rw [hcamera]
  -- the loop shows a tree, as nothing was duplicated
  obtain ⟨t, ht⟩ : ∃ t, e₂.workspace[0]? = some t := by
    obtain ⟨t, ht⟩ := List.length_eq_one_iff.1 (beq_iff_eq.1 hlength)
    exact ⟨t, by rw [ht]; rfl⟩
  have he₂ := he₁.update hupdate
  have hroot : e₂.forest.Occurs (.root 0) (.stack t) :=
    .root (List.getElem?_append_left (List.getElem?_eq_some_iff.1 ht).1 ▸ ht)
  obtain ⟨tree, htree⟩ := hroot.exists_tree (he₂.steady hfiles).1.forest
    (he₂.unshared hfiles fun _ _ => And.right) (Store.position_bare e₂.store)
  obtain ⟨-, camera', hpresent, hmatch⟩ := renderings_match_drawing hw₂
  obtain ⟨r, e', hr, hrender⟩ := hmatch 0 t tree ht htree
  refine ⟨_, e₂, t, tree, hw₂, .inr ⟨.inl hne, hsight⟩, ht, htree, r, e', hr, ?_⟩
  rwa [hpresent (.inr ⟨.inl hne, hsight⟩)] at hrender

/-- Drag a wait to the workspace and move the camera by thirty steps to the left. -/
def pansLeft : List (Devices × Event) :=
  [(⟨⟨80, 130⟩, []⟩, .down 1), (⟨⟨600, 400⟩, []⟩, .up 1), (⟨⟨800, 700⟩, []⟩, .down 2),
    (⟨⟨830, 700⟩, []⟩, .motion ⟨30, 0⟩)]

/-- The only stack of the workspace is drawn beside its rendering. -/
def Editor.drawnBeside (e : Editor) : Bool :=
  match e.workspace, e.renderings with
  | [t], [some r] =>
    match Edit.render t e with
    | .ok r' _ => e.dialog.isNone && !r'.rect.x.eq r.rect.x
    | .error _ _ => false
  | _, _ => false

/-- After the camera was moved with the mouse, a stack is drawn beside its rendering. -/
theorem panning_leaves_rendering_behind :
    ∃ e, Reachable (Written fun _ _ => True) Editor.Orderly .waiting e ∧ e.dialog = none ∧
      ∃ t r r' e', e.workspace[0]? = some t ∧ e.renderings[0]? = some (some r) ∧
        Edit.render t e = .ok r' e' ∧ r'.rect.x.eq r.rect.x = false := by
  obtain ⟨e, he, hend⟩ := exists_reachable_of_play
    (fun _ _ hpass => (orderly_of_no_menu hpass).imp_left And.left) pansLeft Editor.drawnBeside
    (by decide +kernel)
  refine ⟨e, he, ?_⟩
  unfold Editor.drawnBeside at hend
  split at hend
  case h_2 => cases hend
  case h_1 t r hworkspace hrenderings =>
    split at hend
    case h_2 => cases hend
    case h_1 r' e' hrender =>
      simp only [Bool.and_eq_true, Option.isNone_iff_eq_none, Bool.not_eq_true'] at hend
      exact ⟨hend.1, t, r, r', e', by rw [hworkspace]; rfl, by rw [hrenderings]; rfl, hrender, hend.2⟩

end BlockStudio
