import BlockStudio.Proofs.Choosing
import BlockStudio.Proofs.Dropping
import BlockStudio.Proofs.Loading

/-!
# Reachable states of the editor

A run begins with an empty project.  Events and updates follow each other, with at least one update
between two events, and the mouse and the keyboard change as they like.  `Reachable` takes two
parameters: the texts that files may hold when they are opened, and the events that are considered in
a state.  `Written` are the texts that saving writes in runs that open such texts themselves.

What one event does to the forest of the project is a sequence of changes, or one of the two
exceptional changes; `handle_eq_ok` says which.  From this the parts of a reachable state fit together.
-/

namespace BlockStudio

open Editor Edit

variable {saved : Forest → Prop} {e e' : Editor} {text : String} {u : Unit}
  {considered : Editor → Event → Prop} {name : Value} {code : Int}

namespace Editor

/-- The file that an event opens: the dialog that asks for it is confirmed. -/
def opens (e : Editor) (ev : Event) : Option String :=
  match e.dialog with
  | some (d, .load) =>
    let (d, pressed) := d.handle e.devices.mouse ev
    if pressed = some .confirm then some d.value else none
  | _ => none

/-- An event duplicates a whole stack or a block with a filled body. -/
def SharesOn (e : Editor) (ev : Event) : Prop :=
  e.dialog = none ∧ (∃ button, ev = .down button) ∧ e.excuseDown = false ∧ e.SharesBlocks

/-- An event drops a stack that begins with a hat onto a body. -/
def CrownsOn (e : Editor) (ev : Event) : Prop :=
  e.dialog = none ∧ ev = .up 1 ∧ e.excuseUp = false ∧ e.mouseInWorkspace = true ∧ e.CrownsBody

end Editor

/-- Whether the editor was updated since the last event. -/
inductive Phase where
  /-- It was, and can take the next event. -/
  | waiting
  /-- It was not. -/
  | handled
  deriving DecidableEq

/-- A state that the editor reaches from an empty project by considered events, opening only files
with such texts. -/
inductive Reachable (files : String → Prop) (considered : Editor → Event → Prop) :
    Phase → Editor → Prop where
  /-- The editor was set up. -/
  | start {width height : Num} {folder : Folder} {u : Unit} {e : Editor}
    (h : setUp (.blank width height Catalogue.blocks .empty [] folder) = .ok u e) :
    Reachable files considered .waiting e
  /-- The mouse moves and keys are pressed or released. -/
  | devices {phase : Phase} {e : Editor} (d : Devices) (h : Reachable files considered phase e) :
    Reachable files considered phase { e with devices := d }
  /-- An event is handled. -/
  | handle {e e' : Editor} {ev : Event} {u : Unit} (h : Reachable files considered .waiting e)
    (hev : considered e ev)
    (hfile : ∀ path text, e.opens ev = some path → e.scene.folder.readPacked path = .ok text →
      files text)
    (hrun : handle ev e = .ok u e') : Reachable files considered .handled e'
  /-- Time passes. -/
  | update {phase : Phase} {e e' : Editor} {dt : Num} {u : Unit}
    (h : Reachable files considered phase e) (hrun : update dt e = .ok u e') :
    Reachable files considered .waiting e'

/-- A text that saving writes in a run of considered events that opens such texts only. -/
inductive Written (considered : Editor → Event → Prop) : String → Prop where
  | save {phase : Phase} {e : Editor} {text : String}
    (h : Reachable (Written considered) considered phase e)
    (htext : projectText e.store e.workspace e.globals = .ok text) : Written considered text

/-- What is written has every property that goes over from opened to saved texts. -/
theorem Written.closed {files : String → Prop}
    (hf : ∀ phase e text, Reachable files considered phase e →
      projectText e.store e.workspace e.globals = .ok text → files text) (h : Written considered text) :
    files text := by
  refine Written.rec (motive_1 := fun text _ => files text)
    (motive_2 := fun phase e _ => Reachable files considered phase e) ?_ ?_ ?_ ?_ ?_ h
  · intro phase e text _ ht ih
    exact hf phase e text ih ht
  · intro _ _ _ _ _ hr
    exact .start hr
  · intro _ _ d _ ih
    exact .devices d ih
  · intro _ _ _ _ _ hev _ hr ih ihfile
    exact .handle ih hev ihfile hr
  · intro _ _ _ _ _ _ hr ih
    exact .update ih hr

/-! ## What an event does -/

theorem Moves.insertName (hn : name.Literal) :
    Moves saved e { e with globals := insertName name e.globals } := by
  refine .globals fun hs v hv => ?_
  rcases mem_insertName hv with rfl | hv
  · exact hn
  · exact hs.globals v hv

theorem Moves.forgetName (h : forgetName name e = .ok u e') : Moves saved e e' := by
  obtain ⟨-, rfl⟩ := forgetName_eq_ok h
  exact .globals fun hs v hv => hs.globals v (List.mem_of_mem_filter hv)

/-- Answering a dialog. -/
theorem Answers.moves {button : Button} {purpose : Purpose} (h : Answers button text e purpose e')
    (hfi : purpose = .load → button = .confirm → ∀ packed,
      e.scene.folder.readPacked text = .ok packed → Saves saved packed) : Moves saved e e' := by
  refine .trans (.of_core rfl : Moves saved e e.dismissed) ?_
  have hn : (Value.text text).Literal := trivial
  have hno : Value.none.Literal := trivial
  cases h with
  | nothing => exact refl _
  | create ha hdr =>
    exact .trans (.trans ((moves_assign _ _ hn).ok ha)
      ((moves_redraw _).ok hdr)) (.insertName hn)
  | rename _ hf hd hr =>
    obtain rfl := declareName_eq_ok hd
    exact .trans (.trans (.forgetName hf)
      (.insertName hn)) ((moves_renameEverywhere _ hn).ok hr)
  | delete _ hf hr =>
    exact .trans (.forgetName hf) ((moves_renameEverywhere _ hno).ok hr)
  | save hp => exact .trans (.of_core rfl) hp.moves
  | load hc hl =>
    have hm : Moves saved _ (endState (loadProject text e.dismissed)) :=
      .loadProject (hfi rfl hc)
    rwa [hl] at hm
  | failed hc hl hp =>
    have hm : Moves saved _ (endState (loadProject text e.dismissed)) :=
      .loadProject (hfi rfl hc)
    rw [hl] at hm
    exact .trans hm hp.moves

section Slots

variable {b : BlockId} {i : Nat} {v w v' : Value} (hs : e.core.Steady)
  (hsl : e.store.slot? b i = some v)
include hs hsl

theorem Core.Steady.isNode_or_literal : v.IsNode ∨ v.Literal := by
  obtain ⟨_, _, hf⟩ := hs.forest.store.fits_slot? ((slot?_forest ..).trans hsl)
  exact hf.isNode_or_literal

/-- A key leaves a typed value in the edited slot, or the value that was there. -/
theorem Core.Steady.literal_or_eq {kind : SlotKind} (hw : w = v ∨ v = .none ∧ w.Literal)
    (ht : w.typed e.store kind code text = .ok v') (ha : assign b i v' e = .ok () e') :
    v'.Literal ∨ e' = e := by
  refine (literal_or_eq_of_typed hw (hs.isNode_or_literal hsl) ht).imp_right ?_
  rintro rfl
  rw [assign_self hsl] at ha
  cases ha
  rfl

end Slots

theorem Keys.moves (h : Keys code text e e') : Moves saved e e' := by
  cases h with
  | type _ _ hsl hw ht ha hdr =>
    intro hs
    refine Moves.trans ?_ ((moves_redraw _).ok hdr) hs
    rcases hs.literal_or_eq hsl hw ht ha with hl | rfl
    · exact (moves_assign _ _ hl).ok ha
    · exact refl _
  | ask _ _ hp => exact hp.moves
  | drift hd => exact hd.moves

/-- What one event does: a sequence of changes, or one of the two exceptions. -/
theorem handle_eq_ok {ev : Event} (hs : e.core.Steady) (ha : e.dialog = none → e.Aiming)
    (hf : ∀ path text, e.opens ev = some path → e.scene.folder.readPacked path = .ok text →
      Saves saved text) (h : handle ev e = .ok u e') :
    Moves saved e e' ∨ (e.SharesOn ev ∧ e'.core.Steady ∧ Share e.forest e'.forest) ∨
      e.CrownsOn ev ∧ e'.core.Steady ∧ Crown e.forest e'.forest := by
  cases handle_cases h with
  | dialog => exact .inl (.of_core rfl)
  | answer hd hh han =>
    refine .inl (.trans (.of_core rfl) (han.moves ?_))
    rintro rfl rfl packed hp
    exact hf _ packed (by simp [opens, hd, hh]) hp
  | drift _ hdr => exact .inl hdr.moves
  | down hd hdo =>
    refine (handleDown_eq_ok hs hdo).imp_right fun ⟨⟨he, hsh⟩, hst, hsa⟩ => ?_
    exact .inl ⟨⟨hd, ⟨_, rfl⟩, he, hsh⟩, hst, hsa⟩
  | up hd hup =>
    refine (handleUp_eq_ok hs (ha hd) hup).imp_right fun ⟨⟨hb, hc⟩, hst, hcr⟩ => ?_
    exact .inr ⟨⟨hd, hb ▸ rfl, hc⟩, hst, hcr⟩
  | key _ hk => exact .inl hk.moves

/-! ## Reachable states -/

/-- An editor at the beginning of a run. -/
theorem steady_blank (width height : Num) (folder : Folder) :
    (blank width height Catalogue.blocks .empty [] folder).core.Steady where
  forest :=
    { store := by
        show Store.empty.bare.Sound
        rw [Store.bare_empty]
        exact Store.sound_empty
      nodup := List.nodup_nil
      root_lt := by simp [Forest.roots, core, forest, blank]
      apart := by simp [Forest.roots, core, forest, blank] }
  pictured := ⟨rfl, by simp [core, blank]⟩
  palette := by simp [core, blank]
  definitions := rfl
  globals := by simp [core, blank]
  options := by simp [core, blank]
  menu := by simp [core, blank]

namespace Reachable

variable {files : String → Prop} {considered : Editor → Event → Prop} {phase : Phase}

/-- The parts of a reachable state fit together, and the candidate of an editor that waits for an
event is aimed. -/
theorem steady (h : Reachable files considered phase e) (hf : ∀ text, files text → Saves saved text) :
    e.core.Steady ∧ (phase = .waiting → e.dialog = none → e.Aiming) := by
  induction h with
  | start hr =>
    have ho := offers_setUp.ok hr
    have hm : Moves saved _ _ := ho.moves
    have hca := congrArg candidate ho.1
    refine ⟨(hm (steady_blank ..)).1, fun _ _ c hc => ?_⟩
    cases hca.symm.trans hc
  | devices d _ ih => exact ih
  | handle _ _ hfi hr ih =>
    refine ⟨?_, nofun⟩
    rcases handle_eq_ok ih.1 (ih.2 rfl)
      (fun path text hp ht => hf text (hfi path text hp ht)) hr with
      hm | ⟨-, hs, -⟩ | ⟨-, hs, -⟩
    · exact (hm ih.1).1
    · exact hs
    · exact hs
  | update _ hr ih =>
    have hm : Moves saved _ _ := (moves_update _).ok hr
    exact ⟨(hm ih.1).1, fun _ => aiming_update ih.1 hr⟩

/-- A property of forests that holds at the beginning and is kept by changes holds in all reachable
states, as far as the considered events keep it when they do something exceptional. -/
theorem forest {P : Forest → Prop} (h : Reachable files considered phase e)
    (hf : ∀ text, files text → Saves saved text) (he : P ⟨.empty, [], none⟩)
    (hc : ∀ F F', F.Sound → Changes saved F F' → P F → P F')
    (hsh : ∀ e ev F', considered e ev → e.SharesOn ev → e.forest.Sound → Share e.forest F' →
      P e.forest → P F')
    (hcr : ∀ e ev F', considered e ev → e.CrownsOn ev → e.forest.Sound → Crown e.forest F' →
      P e.forest → P F') : P e.forest := by
  induction h with
  | start hru =>
    have hm : Moves saved _ _ := (offers_setUp.ok hru).moves
    obtain ⟨-, hch⟩ := hm (steady_blank ..)
    refine hc _ _ (steady_blank ..).forest hch ?_
    show P ⟨Store.empty.bare, [], none⟩
    rwa [Store.bare_empty]
  | devices d _ ih => exact ih
  | handle hr hev hfi hru ih =>
    obtain ⟨hs, ha⟩ := hr.steady hf
    rcases handle_eq_ok hs (ha rfl)
      (fun path text hp ht => hf text (hfi path text hp ht)) hru with
      hm | ⟨hon, -, hF⟩ | ⟨hon, -, hF⟩
    · exact hc _ _ hs.forest (hm hs).2 ih
    · exact hsh _ _ _ hev hon hs.forest hF ih
    · exact hcr _ _ _ hev hon hs.forest hF ih
  | update hr hru ih =>
    have hs := (hr.steady hf).1
    have hm : Moves saved _ _ := (moves_update _).ok hru
    exact hc _ _ hs.forest (hm hs).2 ih

end Reachable

/-- A text that was written holds a project whose parts fit together. -/
theorem Written.saves (h : Written considered text) : Saves (fun _ => True) text :=
  h.closed fun _ e _ he ht => ⟨e, (he.steady fun _ => id).1, trivial, ht⟩

/-! ## Runs that can be played -/

/-- Play events, each with the mouse and the keyboard it finds and an update after it, as long as they
pass a check. -/
def Edit.play (check : Editor → Event → Bool) : List (Devices × Event) → Edit Unit
  | [] => return
  | (d, ev) :: rest => do
    modify fun e => { e with devices := d }
    if check (← get) ev then
      handle ev
      update 0
      play check rest
    else throw .badOperands

section Play

variable {files : String → Prop} {considered : Editor → Event → Prop}
  {check : Editor → Event → Bool} {rounds : List (Devices × Event)}

theorem Reachable.play (hc : ∀ e ev, check e ev = true → considered e ev ∧ e.opens ev = none)
    (h : Reachable files considered .waiting e) (hp : play check rounds e = .ok u e') :
    Reachable files considered .waiting e' := by
  induction rounds generalizing e with
  | nil =>
    obtain ⟨-, rfl⟩ := pure_eq_ok.1 hp
    exact h
  | cons round rest ih =>
    obtain ⟨d, ev⟩ := round
    unfold play at hp
    rw [modify_bind, get_bind] at hp
    split at hp
    case isFalse => exact absurd hp throw_ne_ok
    case isTrue hpa =>
      obtain ⟨_, e1, h1, hp⟩ := bind_eq_ok.1 hp
      obtain ⟨_, e2, h2, hp⟩ := bind_eq_ok.1 hp
      obtain ⟨hev, ho⟩ := hc _ ev hpa
      exact ih (.update (.handle (.devices d h) hev (by simp [ho]) h1) h2) hp

/-- The end of a run that was played from an empty project. -/
theorem exists_reachable_of_play
    (hc : ∀ e ev, check e ev = true → considered e ev ∧ e.opens ev = none)
    (rounds : List (Devices × Event)) (p : Editor → Bool)
    (h : endsIn (do setUp; play check rounds)
      (.blank 1200 900 Catalogue.blocks .empty [] .empty) p = true) :
    ∃ e, Reachable files considered .waiting e ∧ p e = true := by
  obtain ⟨_, e, hr, hp⟩ := exists_of_endsIn h
  obtain ⟨_, e0, h0, hpl⟩ := bind_eq_ok.1 hr
  exact ⟨e, (Reachable.start h0).play hc hpl, hp⟩

end Play

end BlockStudio
