import BlockStudio.Proofs.Pruning

/-!
# Renderings in step with the workspace

The editor keeps the stacks of the workspace and their renderings in two lists.  In whatever order events
and updates come, the two stay in step: they are equally long, no rendering is missing, and each is the
rendering of the stack at its place.  And no stack of the workspace is empty, which the palette and the
start of a program rely on when they look at the first block.

What is let go over the workspace is joined to the place that was found last, however long ago that was;
so the invariant must not depend on what that place is.  A file that is opened brings in stacks that are
as little empty as those that were saved.
-/

namespace BlockStudio

open Forest Store Edit List

variable {e e' : Editor} {u : Unit} {t : StackId} {text : String} {i : Nat} {ev : Event}
  {s : Store} {json : Json} {files : String → Prop}

/-- The project is rooted and drawn as a whole. -/
structure Editor.InStep (e : Editor) : Prop where
  rooted : e.core.Rooted
  shown : e.Shown

theorem Editor.InStep.secures (h : e.InStep) (hs : Secures e e') : e'.InStep := by
  obtain ⟨hr, -, hsh⟩ := hs h.rooted
  exact ⟨hr, hsh h.shown⟩

/-- A drawing that is not left out draws all stacks. -/
theorem shown_redraw {i : Int} (h : redraw i e = .ok u e') (hi : i < e.workspace.length) :
    e'.Shown := by
  intro k t hk
  rw [((repaints_redraw i).ok h).workspace_eq] at hk
  obtain ⟨r, _, _, -, -, -, hr⟩ := refreshAll_eq_ok (fun _ => pictures_render) h hi hk
  exact ⟨r, hr⟩

/-! ## Letting go -/

/-- Drawing does not depend on what is dragged. -/
theorem Repaints.released (h : Repaints e e') : Repaints e.released e'.released :=
  ⟨congrArg Editor.released h.1, h.2⟩

/-- Another stack comes into the workspace. -/
theorem Core.Rooted.append {c : Core} (hr : c.Rooted) {F : Forest} (hF : F.Rooted)
    (hs : c.forest.store.allStacks.size ≤ F.store.allStacks.size)
    (hw : F.workspace = c.forest.workspace ++ [t])
    (hme : ∀ m, c.menu = some m → F.cursor ≠ some m.stack ∧ m.stack ≠ t) :
    ({ c with forest := F, renderings := c.renderings ++ [none] } : Core).Rooted :=
  { hr with
    forest := hF
    pictured := hw ▸ hr.pictured.append t
    menu := fun m hm => (hr.menu m hm).append hs (hme m hm).1 hw (hme m hm).2 }

theorem Editor.InStep.lay (h : e.InStep) {p : Option (List Value)} (ht : e.cursor = some t)
    (hd : redraw (-1) { e.withStore (e.store.setPosition t p) with
      workspace := e.workspace ++ [t], renderings := e.renderings ++ [none] } = .ok u e') :
    e'.released.InStep := by
  let laid : Editor := { e.withStore (e.store.setPosition t p) with
    workspace := e.workspace ++ [t], renderings := e.renderings ++ [none] }
  have hl : laid.released.core.Rooted := by
    have hc : laid.released.core = { e.core with
        forest := ⟨e.forest.store, e.workspace ++ [t], none⟩
        renderings := e.renderings ++ [none] } := by
      rw [show e.forest.store = (e.store.setPosition t p).bare from (bare_setPosition ..).symm]
      rfl
    rw [hc]
    refine h.rooted.append (h.rooted.forest.lay ht) le_rfl rfl fun m hm => ⟨nofun, ?_⟩
    rintro rfl
    exact (h.rooted.menu m hm).not_dragged ht
  have hr := ((repaints_redraw (-1)).ok hd).released
  have hre := (redraws_refreshAll (fun _ => pictures_render) (-1)).ok hd
  have hs := shown_redraw hd (Int.lt_of_lt_of_le (by decide) (Int.natCast_nonneg _))
  exact ⟨(hr.secures hre hl).1, hs⟩

/-- A stack is let go, with any place to join it. -/
theorem Editor.InStep.letsGo (h : e.InStep) (hgo : LetsGo e ev e') : e'.InStep := by
  obtain @⟨t, e1, e2, -, -, -, ho, hc, hdo⟩ := hgo
  have h1 : e1.InStep := h.secures ho.secures
  rcases letGo_cases hdo with ⟨p, hdr⟩ | ⟨c, s, -, hdr, ha⟩
  · exact h1.lay hc hdr
  · refine Editor.InStep.secures ?_ (.trans ((secures_redraw _).ok hdr) (.released e2))
    cases ha with
    | @ends k _ _ _ hs =>
      have hF := h1.rooted.forest.splice c.stack t k
      rw [show e1.core.forest.store = e1.store.bare from rfl, ← hs.bare] at hF
      have hst : e1.store.bare.allStacks.size = s.bare.allStacks.size := by
        rw [hs.bare]
        rfl
      refine ⟨{ h1.rooted with forest := hF, menu := fun m hm => ?_ }, h1.shown⟩
      obtain ⟨hlt, hd, hi⟩ := h1.rooted.menu m hm
      exact ⟨hlt.trans_eq hst, hd, hi⟩
    | slot => exact h1.secures (.plug _ _ _)

/-! ## Opening files -/

/-- A text whose stacks, where they can be read, are not empty. -/
def Replete (text : String) : Prop :=
  ∀ json jsons, projectJson text = .ok json → (json.item "stacks" >>= Json.walk) = .ok jsons →
    ∀ j ∈ jsons, ∀ items, (j.item "blocks" >>= Json.walk) = .ok items → items ≠ []

/-- A project without empty stacks is saved without empty stacks. -/
theorem replete_of_projectText {workspace : List StackId} {globals : List Value}
    (hf : ∀ t ∈ workspace, s.blocksOf t ≠ []) (h : projectText s workspace globals = .ok text) :
    Replete text := by
  obtain ⟨saved, names, hjn, hsa, -⟩ := projectJson_written h
  intro json jsons hj hjo j hm items hi
  cases hjn.symm.trans hj
  cases hjo
  obtain ⟨j0, hj0, rfl⟩ := mem_map.1 hm
  obtain ⟨t, ht, hs⟩ := exists_of_forall₂_left hsa.flip hj0
  rcases hd : s.depth with _ | n <;> rw [hd] at hs
  · cases hs
    cases hi
  · obtain ⟨js, pos, hjs, -, rfl⟩ := savedStackTo_succ_eq_ok hs
    have hl : items.length = js.length := by
      simp only [Json.mapFloats, Json.mapFloats.mapFields, mapItems_eq_map, Json.putField] at hi
      cases hi
      exact length_map _
    refine ne_nil_of_length_pos ?_
    rw [hl, ← hjs.length_eq]
    exact length_pos_iff.2 (hf t ht)

/-- A stack that is read comes after its blocks, and has as many as were saved. -/
theorem stack_eq_ok {definitions : List Definition} {s' : Store}
    (h : Saved.stack definitions json s = .ok t s') : ∃ items s1 bs p,
      (json.item "blocks" >>= Json.walk) = .ok items ∧ bs.length = items.length ∧ s.Adds s1 ∧
        t = ⟨s1.allStacks.size⟩ ∧ s' = (s1.addStack bs p).2 := by
  unfold Saved.stack Saved.readStack at h
  obtain ⟨items, s0, hi, h⟩ := bind_eq_ok.1 h
  obtain ⟨bs, s1, hbs, h⟩ := bind_eq_ok.1 h
  obtain ⟨p, s2, hp, had⟩ := bind_eq_ok.1 h
  have hb : Keeps Adds (items.mapM (Saved.readBlock definitions (2 * Saved.nesting json + 1))) :=
    .mapM items fun j _ => (supplies_read definitions _).1 j
  have ha := trans_of Adds ((adds_ofExcept _).ok hi)
    (trans_of Adds (hb.ok hbs) ((adds_ofExcept _).ok hp))
  cases hr : json.item "blocks" >>= Json.walk with
  | error f =>
    rw [hr] at hi
    cases hi
  | ok items' =>
    rw [hr] at hi
    cases hi
    cases had
    exact ⟨items, s2, bs, p, rfl, length_of_mapM_eq_ok hbs, ha, rfl, rfl⟩

/-- A saved stack that is not empty comes into the workspace and is drawn. -/
theorem Editor.InStep.takeStack (h : e.InStep) (hi : i = e.workspace.length)
    (hj : ∀ items, (json.item "blocks" >>= Json.walk) = .ok items → items ≠ [])
    (hr : takeStack json i e = .ok u e') : e'.InStep ∧ e'.workspace.length = i + 1 := by
  rw [takeStack_run] at hr
  cases hre : Saved.stack e.definitions json e.store with
  | error f s =>
    rw [hre] at hr
    cases hr
  | ok t s =>
    rw [hre] at hr
    obtain ⟨items, s1, bs, p, hit, hl, ha, rfl, rfl⟩ := stack_eq_ok hre
    have hbs : bs ≠ [] := by
      rintro rfl
      exact hj items hit (length_eq_zero_iff.1 hl.symm)
    have hF := h.rooted.forest.take ha.bare hbs none
    rw [← bare_addStack s1 bs p, size_allStacks_bare] at hF
    have hle := (trans_of Adds ha (adds_addStack s1 bs p)).bare.stacks_le
    have hro : (e.withStack (s1.addStack bs p).2 ⟨s1.allStacks.size⟩).core.Rooted := by
      refine h.rooted.append hF hle rfl fun m hm => ?_
      refine ⟨(h.rooted.menu m hm).not_dragged, ?_⟩
      intro hs
      have hlt := (h.rooted.menu m hm).stack_lt
      rw [hs] at hlt
      exact absurd hlt (Nat.not_lt_of_le (ha.bare.stacks_le.trans_eq (size_allStacks_bare _)))
    have hw := ((repaints_redraw _).ok hr).workspace_eq
    have hl : e'.workspace.length = i + 1 := by
      rw [hw, hi]
      exact length_append
    refine ⟨⟨((secures_redraw _).ok hr hro).1, shown_redraw hr ?_⟩, hl⟩
    rw [← hw, hl]
    exact Int.ofNat_lt.2 (Nat.lt_succ_self i)

theorem Editor.InStep.takeStacks (h : e.InStep) {jsons : List Json} (hi : i = e.workspace.length)
    (hjs : ∀ j ∈ jsons, ∀ items, (j.item "blocks" >>= Json.walk) = .ok items → items ≠ [])
    (hr : takeStacks i jsons e = .ok u e') : e'.InStep := by
  induction jsons generalizing i e with
  | nil => exact (pure_eq_ok.1 hr).2 ▸ h
  | cons j rest ih =>
    unfold takeStacks at hr
    obtain ⟨_, e1, h1, hr⟩ := bind_eq_ok.1 hr
    obtain ⟨hj, hre⟩ := forall_mem_cons.1 hjs
    obtain ⟨hs, hl⟩ := h.takeStack hi hj h1
    exact ih hs hl.symm hre hr

theorem Editor.InStep.cleared (h : e.InStep) : e.cleared.InStep := by
  obtain ⟨hr, -⟩ := prunes_roots (F := e.forest) e.cursor (nil_sublist _)
    (fun _ => id) h.rooted.forest
  refine ⟨{ h.rooted with
    forest := hr
    pictured := ⟨rfl, nofun⟩
    menu := fun m hm => ?_ }, nofun⟩
  obtain ⟨hlt, hd, -⟩ := h.rooted.menu m hm
  exact ⟨hlt, hd, fun hme => absurd hme not_mem_nil⟩

/-- A project without empty stacks is opened as a whole. -/
theorem Editor.InStep.loadProject (h : e.InStep) {path : String}
    (hf : ∀ text, e.scene.folder.readPacked path = .ok text → Replete text)
    (hr : loadProject path e = .ok u e') : e'.InStep := by
  obtain ⟨json, jsons, names, values, e1, hp, hjs, ht, -, hva, rfl⟩ := loadProject_eq_ok hr
  obtain ⟨text, hte, hjo⟩ := except_bind_eq_ok.1 hp
  have h1 := h.cleared.takeStacks rfl (hf text hte json jsons hjo hjs) ht
  refine h1.secures (.globals fun _ v hv => ?_)
  rcases mem_foldl_insertName hv with hv | hv
  · obtain ⟨j, -, hj⟩ := exists_of_forall₂_left (mapM_eq_ok.1 hva).flip hv
    cases j <;> cases hj <;> exact plainValue_ne_stack _
  · cases hv

/-- A file that holds a project is opened without a fault. -/
def Editor.OpensWhole (e : Editor) (ev : Event) : Prop :=
  ∀ path, e.opens ev = some path → (∃ e1, loadProject path { e with dialog := none } = .ok () e1) ∨
      ∀ json, e.projectIn path ≠ .ok json

/-- A state that the editor reaches from an empty project, with events and updates in any order.  Only
files with such texts are opened, and nothing raises a fault: neither the handling of an event, nor an
update, nor the loading that a dialog would tell of. -/
inductive Visited (files : String → Prop) : Editor → Prop where
  /-- The editor was set up. -/
  | start {width height : Num} {folder : Folder} {u : Unit} {e : Editor}
    (h : setUp (.blank width height Catalogue.blocks .empty [] folder) = .ok u e) :
    Visited files e
  /-- The mouse moves and keys are pressed or released. -/
  | devices {e : Editor} (d : Devices) (h : Visited files e) : Visited files { e with devices := d }
  /-- An event is handled. -/
  | handle {e e' : Editor} {ev : Event} {u : Unit} (h : Visited files e)
    (hfile : ∀ path text, e.opens ev = some path → e.scene.folder.readPacked path = .ok text →
      files text)
    (hopens : e.OpensWhole ev) (hrun : handle ev e = .ok u e') : Visited files e'
  /-- Time passes. -/
  | update {e e' : Editor} {dt : Num} {u : Unit} (h : Visited files e)
    (hrun : update dt e = .ok u e') : Visited files e'

/-- A text that saving writes in a run that opens such texts only. -/
inductive SavedText : String → Prop where
  | save {e : Editor} {text : String} (h : Visited SavedText e)
    (htext : projectText e.store e.workspace e.globals = .ok text) : SavedText text

/-- Something that happens to the editor: the mouse and the keys, an event, or the passing of time. -/
inductive Stimulus where
  | devices (d : Devices)
  | event (ev : Event)
  | update (dt : Num)

/-- Let things happen one after the other, as long as no file is opened. -/
def Edit.perform : List Stimulus → Edit Unit
  | [] => return
  | .devices d :: rest => do
    modify fun e => { e with devices := d }
    perform rest
  | .event ev :: rest => do
    if (← get).opens ev = none then
      handle ev
      perform rest
    else throw .badOperands
  | .update dt :: rest => do
    update dt
    perform rest

theorem Visited.perform (h : Visited files e) {stimuli : List Stimulus}
    (hr : perform stimuli e = .ok u e') : Visited files e' := by
  induction stimuli generalizing e with
  | nil => exact (pure_eq_ok.1 hr).2 ▸ h
  | cons stimulus rest ih =>
    cases stimulus with
    | devices d => exact ih (h.devices d) hr
    | event ev =>
      unfold perform at hr
      rw [get_bind] at hr
      split at hr
      case isFalse => exact absurd hr throw_ne_ok
      case isTrue ho =>
        obtain ⟨_, e1, h1, hr⟩ := bind_eq_ok.1 hr
        refine ih (h.handle ?_ ?_ h1) hr <;> intro path <;> rw [ho] <;> exact nofun
    | update dt =>
      obtain ⟨_, e1, h1, hr⟩ := bind_eq_ok.1 hr
      exact ih (h.update h1) hr

/-- One event, with the files that it may open. -/
theorem Editor.InStep.handle (h : e.InStep)
    (hf : ∀ path text, e.opens ev = some path → e.scene.folder.readPacked path = .ok text →
      Replete text) (ho : e.OpensWhole ev) (hr : handle ev e = .ok u e') : e'.InStep := by
  rcases handle_secures hr with hs | hgo | ⟨path, hpa, hl | ⟨f, e1, hl, hpo⟩⟩
  · exact h.secures hs
  · exact h.letsGo hgo
  · have hc : Editor.InStep e.dismissed := ⟨h.rooted, h.shown⟩
    exact hc.loadProject (fun text => hf path text hpa) hl
  · rcases ho path hpa with ⟨e2, hw⟩ | hn
    · cases hl.symm.trans hw
    -- without a project in the file nothing was touched
    · cases hp : Editor.projectIn e.dismissed path with
      | ok json => exact absurd hp (hn json)
      | error g =>
        rw [loadProject_unreadable hp] at hl
        cases hl
        exact h.secures (.of_core (hpo.part Editor.core fun _ _ => rfl))

theorem inStep_of_setUp {width height : Num} {folder : Folder}
    (h : setUp (.blank width height Catalogue.blocks .empty [] folder) = .ok u e) : e.InStep := by
  have hb : (Editor.blank width height Catalogue.blocks .empty [] folder).InStep :=
    ⟨(steady_blank ..).rooted fun t ht => absurd ht not_mem_nil, nofun⟩
  exact hb.secures (offers_setUp.ok h).secures

theorem Visited.inStep (hf : ∀ text, files text → Replete text) (h : Visited files e) :
    e.InStep := by
  induction h with
  | start h => exact inStep_of_setUp h
  | devices d _ ih => exact ⟨ih.rooted, ih.shown⟩
  | handle _ hfi ho hr ih =>
    exact ih.handle (fun path text hp ht => hf text (hfi path text hp ht)) ho hr
  | update _ hr ih => exact ih.secures ((secures_update _).ok hr)

/-- The stacks of a rooted project are not empty. -/
theorem Editor.InStep.blocksOf_ne_nil (h : e.InStep) (ht : t ∈ e.workspace) :
    e.store.blocksOf t ≠ [] := by
  have hr := h.rooted.forest.filled t (workspace_subset_roots ht)
  rwa [show e.core.forest.store = e.forest.store from rfl, blocksOf_forest] at hr

theorem SavedText.replete (h : SavedText text) : Replete text := by
  refine SavedText.rec (motive_1 := fun text _ => Replete text) (motive_2 := fun e _ => e.InStep)
    ?_ ?_ ?_ ?_ ?_ h
  · intro e text _ ht ih
    exact replete_of_projectText (fun t => ih.blocksOf_ne_nil) ht
  · intro _ _ _ _ _ hr
    exact inStep_of_setUp hr
  · intro _ _ _ ih
    exact ⟨ih.rooted, ih.shown⟩
  · intro _ _ _ _ _ _ ho hr ih ihfile
    exact ih.handle ihfile ho hr
  · intro _ _ _ _ _ hr ih
    exact ih.secures ((secures_update _).ok hr)

/-- Along every run of events and updates in any order, the renderings are in step with the workspace:
there are as many, none is missing, and each is the one of the stack with its number.  And each stack of
the workspace has a block. -/
theorem renderings_in_step (h : Visited SavedText e) : e.renderings.length = e.workspace.length ∧
      (∀ (i : Nat) t, e.workspace[i]? = some t → ∃ r, e.renderings[i]? = some (some r) ∧ r.stack = t) ∧
      ∀ t ∈ e.workspace, e.store.blocksOf t ≠ [] := by
  have hstep : e.InStep := h.inStep fun _ => SavedText.replete
  refine ⟨hstep.rooted.pictured.length_eq, fun i t ht => ?_, fun t => hstep.blocksOf_ne_nil⟩
  obtain ⟨r, hr⟩ := hstep.shown i t ht
  have hstack := hstep.rooted.pictured.stack_eq i r hr
  exact ⟨r, hr, Option.some.inj (hstack.symm.trans ht)⟩

/-- A second block is let go far from the stack and joined to it all the same, at the place that was found
for the first one: no update came in between. -/
theorem renderings_in_step_of_late_join :
    ∃ e, Visited SavedText e ∧ e.workspace.map (fun t => (e.store.blocksOf t).length) = [3] ∧
      e.renderings.length = e.workspace.length ∧
      (∀ (i : Nat) t, e.workspace[i]? = some t → ∃ r, e.renderings[i]? = some (some r) ∧ r.stack = t) ∧
      ∀ t ∈ e.workspace, e.store.blocksOf t ≠ [] := by
  have h : endsIn (do
      Edit.setUp
      Edit.perform [.devices ⟨⟨80, 60⟩, []⟩, .event (.down 1), .devices ⟨⟨600, 300⟩, []⟩, .event (.up 1),
        .devices ⟨⟨80, 130⟩, []⟩, .event (.down 1), .devices ⟨⟨600, 365⟩, []⟩, .update 0, .event (.up 1),
        .devices ⟨⟨80, 190⟩, []⟩, .event (.down 1), .devices ⟨⟨700, 600⟩, []⟩, .event (.up 1)])
      (.blank 1200 900 Catalogue.blocks .empty [] .empty)
      (fun e => e.workspace.map (fun t => (e.store.blocksOf t).length) == [3]) = true := by
    decide +kernel
  obtain ⟨_, e, hrun, hend⟩ := exists_of_endsIn h
  obtain ⟨_, e₀, h₀, hrun⟩ := bind_eq_ok.1 hrun
  have hvisited : Visited SavedText e := (Visited.start h₀).perform hrun
  exact ⟨e, hvisited, by simpa using hend, renderings_in_step hvisited⟩

end BlockStudio
