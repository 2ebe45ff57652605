import BlockStudio.Proofs.Change
import BlockStudio.Proofs.Drawing

/-!
# What the editor keeps between events

`Editor.core` is what matters for how blocks are put together: the forest, the renderings that clicks
go to, the blocks that the palette offers, the names of variables and the open menu.  `Core.Steady`
says that these fit together.  `Moves` relates two states of the editor when the second is steady as
soon as the first one is, and their forests are a sequence of changes apart; most steps of the editor
keep this relation however they end.
-/

namespace BlockStudio

open Editor Edit List

/-- The part of the editor that says how blocks are put together and what clicks go to. -/
structure Core where
  /-- The blocks and stacks. -/
  forest : Forest
  /-- Where the stacks were last drawn. -/
  renderings : List (Option Rendering)
  /-- The blocks that the palette offers. -/
  palette : List PaletteItem
  /-- The definitions that saved blocks can refer to. -/
  definitions : List Definition
  /-- The declared variables. -/
  globals : List Value
  /-- The lines of the last menu. -/
  options : List MenuOption
  /-- The open menu. -/
  menu : Option Menu

namespace Editor

/-- The forest of the project, without places. -/
def forest (e : Editor) : Forest where
  store := e.store.bare
  workspace := e.workspace
  cursor := e.cursor

/-- The core of the editor. -/
def core (e : Editor) : Core where
  forest := e.forest
  renderings := e.renderings
  palette := e.palette
  definitions := e.definitions
  globals := e.globals
  options := e.options
  menu := e.menu

end Editor

/-- Places apart, a store reaches the same. -/
theorem Forest.Reached.bare {s : Store} {tops : List StackId} {v : Value} (h : Reached s tops v) :
    Reached s.bare tops v := by
  induction h with
  | top ht => exact .top ht
  | row _ hb ih => exact .row ih (by simpa using hb)
  | slot _ hv ih => exact .slot ih (by simpa [Store.slot?] using hv)

theorem slot?_forest (e : Editor) (b : BlockId) (i : Nat) :
    e.forest.store.slot? b i = e.store.slot? b i := by
  simp [forest, Store.slot?]

theorem blocksOf_forest (e : Editor) (t : StackId) :
    e.forest.store.blocksOf t = e.store.blocksOf t := by
  simp [forest]

theorem size_blocks_forest (e : Editor) : e.forest.store.blocks.size = e.store.blocks.size :=
  Store.size_blocks_bare ..

theorem size_allStacks_forest (e : Editor) :
    e.forest.store.allStacks.size = e.store.allStacks.size :=
  Store.size_allStacks_bare ..

theorem definitionOf_forest (e : Editor) (b : BlockId) :
    e.forest.store.definitionOf b = e.store.definitionOf b := by
  simp [forest]

/-- Every stack of the workspace has a place among the renderings. -/
structure Pictured (workspace : List StackId) (renderings : List (Option Rendering)) : Prop where
  length_eq : renderings.length = workspace.length
  stack_eq : ∀ (i : Nat) r, renderings[i]? = some (some r) → workspace[i]? = some r.stack

/-- A menu was opened for a stack that is not dragged; as long as it is in the workspace, it is the one
with the number that the menu remembers. -/
structure Menu.Marks (F : Forest) (m : Menu) : Prop where
  stack_lt : m.stack.index < F.store.allStacks.size
  not_dragged : F.cursor ≠ some m.stack
  index : m.stack ∈ F.workspace → ∃ k : Nat, m.stackIndex = k ∧ F.workspace[k]? = some m.stack

/-- The block that it was opened for is there as well. -/
structure Menu.Fits (F : Forest) (m : Menu) : Prop extends m.Marks F where
  block_lt : m.block.index < F.store.blocks.size

/-- The parts of the editor fit together. -/
structure Core.Steady (c : Core) : Prop where
  forest : c.forest.Sound
  pictured : Pictured c.forest.workspace c.renderings
  palette : ∀ item ∈ c.palette, item.definition ∈ Catalogue.blocks
  definitions : c.definitions = Catalogue.blocks
  globals : ∀ v ∈ c.globals, v.Literal
  options : ∀ v, .varName v ∈ c.options → v.Literal
  menu : ∀ m, c.menu = some m → m.Fits c.forest

/-- From a steady state to a steady one, with a sequence of changes of the forest. -/
def Moves (saved : Forest → Prop) (e e' : Editor) : Prop :=
  e.core.Steady → e'.core.Steady ∧ Changes saved e.forest e'.forest

instance (saved : Forest → Prop) : IsPreorder Editor (Moves saved) where
  refl _ h := ⟨h, .refl⟩
  trans _ _ _ h h' hs := by
    obtain ⟨hs1, hc⟩ := h hs
    obtain ⟨hs2, hc'⟩ := h' hs1
    exact ⟨hs2, hc.trans hc'⟩

variable {α : Type} {saved : Forest → Prop} {e e' : Editor} {workspace : List StackId}
  {renderings : List (Option Rendering)} {i : Nat} {r : Rendering} {stack t : StackId} {F F' : Forest}
  {m : Menu} {v : Value}

theorem Moves.trans {e1 : Editor} (h : Moves saved e e1) (h1 : Moves saved e1 e') : Moves saved e e' :=
  trans_of (Moves saved) h h1

theorem Moves.of_core (h : e'.core = e.core) : Moves saved e e' := by
  intro hs
  have hF : e'.forest = e.forest := congrArg Core.forest h
  rw [h, hF]
  exact ⟨hs, .refl⟩

/-- What the window shows of the project: the core, the places of stacks and the size of the
window. -/
def Editor.stage (e : Editor) : Core × Store × Num × Num :=
  (e.core, e.store.undrawn, e.width, e.height)

/-- A step that leaves the core of the editor and the places of stacks alone. -/
abbrev Aside {α : Type} (m : Edit α) : Prop := Keeps (Same stage) m

theorem Aside.core {m : Edit α} (h : Aside m) : Keeps (Same core) m := h.part Prod.fst fun _ => rfl

theorem Aside.moves {m : Edit α} (h : Aside m) : Keeps (Moves saved) m :=
  h.core.mono fun _ _ => .of_core

theorem Editor.stage_bare (e : Editor) : e.bare.stage = e.stage := by
  simp [stage, core, forest, bare, store]

theorem Pictures.aside {m : Edit α} (h : Pictures m) : Aside m :=
  h.part stage fun e => e.stage_bare.symm

/-! ## Renderings -/

theorem Pictured.set (h : Pictured workspace renderings) (hr : workspace[i]? = some r.stack) :
    Pictured workspace (renderings.set i (some r)) := by
  refine ⟨by simpa using h.length_eq, fun j r' hj => ?_⟩
  by_cases hij : i = j
  · subst hij
    rw [getElem?_set_self', Option.map_eq_map, Option.map_eq_some_iff] at hj
    obtain ⟨_, _, hj⟩ := hj
    cases hj
    exact hr
  · rw [getElem?_set_ne hij] at hj
    exact h.stack_eq j r' hj

theorem Pictured.append (h : Pictured workspace renderings) (t : StackId) :
    Pictured (workspace ++ [t]) (renderings ++ [none]) := by
  refine ⟨by simp [h.length_eq], fun i r hi => ?_⟩
  rw [getElem?_append] at hi
  split at hi
  case isTrue hlt =>
    rw [getElem?_append_left (h.length_eq ▸ hlt)]
    exact h.stack_eq i r hi
  case isFalse hlt =>
    have := mem_of_getElem? hi
    simp at this

theorem Pictured.eraseIdx (h : Pictured workspace renderings) (k : Nat) :
    Pictured (workspace.eraseIdx k) (renderings.eraseIdx k) := by
  refine ⟨by simp [length_eraseIdx, h.length_eq], fun i r hi => ?_⟩
  rw [getElem?_eraseIdx] at hi ⊢
  split at hi
  case isTrue hlt =>
    rw [if_pos hlt]
    exact h.stack_eq i r hi
  case isFalse hlt =>
    rw [if_neg hlt]
    exact h.stack_eq (i + 1) r hi

/-- Only renderings changed, and they are still in step with the workspace. -/
def Repaints (e e' : Editor) : Prop :=
  e'.unseen = e.unseen ∧ (Pictured e.workspace e.renderings → Pictured e'.workspace e'.renderings)

instance : IsPreorder Editor Repaints where
  refl _ := ⟨rfl, id⟩
  trans _ _ _ h h' := ⟨h'.1.trans h.1, fun hp => h'.2 (h.2 hp)⟩

theorem repaints_of_bare (h : e'.bare = e.bare) : Repaints e e' := by
  have hr : e'.renderings = e.renderings := (congrArg renderings h :)
  have hw : e'.workspace = e.workspace := (congrArg workspace h :)
  refine ⟨?_, fun hp => by rwa [hr, hw]⟩
  rw [unseen, h]
  rfl

theorem Repaints.core_eq (h : Repaints e e') : e'.core = { e.core with renderings := e'.renderings } := by
  have := congrArg (fun u : Editor => ({ u.core with renderings := e'.renderings } : Core)) h.1
  simpa [Editor.core, Editor.forest, Editor.unseen, Editor.bare, Editor.store] using this

theorem Repaints.forest_eq (h : Repaints e e') : e'.forest = e.forest :=
  congrArg Core.forest h.core_eq

theorem Repaints.moves (h : Repaints e e') : Moves saved e e' := by
  intro hs
  have hc := h.core_eq
  have hF := h.forest_eq
  have hw : e'.workspace = e.workspace := congrArg Forest.workspace hF
  have hp := h.2 hs.pictured
  rw [hw] at hp
  refine ⟨?_, by rw [hF]⟩
  rw [hc]
  exact { hs with pictured := hp }

/-- Only renderings changed and stayed in step, for an editor with a given workspace. -/
def RepaintsIn (workspace : List StackId) (e e' : Editor) : Prop :=
  e.workspace = workspace → Repaints e e'

theorem Repaints.workspace_eq (h : Repaints e e') : e'.workspace = e.workspace :=
  (congrArg workspace h.1 :)

instance (workspace : List StackId) : IsPreorder Editor (RepaintsIn workspace) where
  refl e _ := refl e
  trans _ _ _ h h' hw := trans_of Repaints (h hw) (h' ((h hw).workspace_eq.trans hw))

theorem stack_rendering {full : Size} (h : e.rendering stack full = .ok r) : r.stack = stack := by
  unfold rendering at h
  simp only [bind, Except.bind, pure, Except.pure] at h
  repeat' split at h
  all_goals cases h
  rfl

theorem stack_render (h : render stack e = .ok r e') : r.stack = stack := by
  obtain ⟨full, e1, -, h⟩ := bind_eq_ok.1 h
  rw [get_bind] at h
  exact stack_rendering (ofExcept_eq_ok.1 h).1

theorem stack_rescale (h : rescale i stack e = .ok r e') : r.stack = stack := by
  unfold rescale at h
  rw [get_bind] at h
  rcases hr : e.renderings[i]? with _ | _ | r0 <;> simp only [hr] at h
  · cases h
  · cases h
  · rw [get_bind] at h
    exact stack_rendering (ofExcept_eq_ok.1 h).1

section Refresh

variable {again : Nat → StackId → Edit Rendering}

/-- Finding the place of a stack of the workspace and remembering it. -/
theorem repaintsIn_setRendering (hpi : ∀ i stack, Pictures (again i stack))
    (hs : ∀ i stack e r e', again i stack e = .ok r e' → r.stack = stack)
    (hi : workspace[i]? = some stack) :
    Keeps (RepaintsIn workspace) (again i stack >>= setRendering i) := by
  constructor
  intro e hw
  show Repaints e (endState (EStateM.bind (again i stack) (setRendering i) e))
  unfold EStateM.bind
  cases h : again i stack e with
  | error f e1 => exact repaints_of_bare ((hpi i stack).error h)
  | ok r e1 =>
    have hb := repaints_of_bare ((hpi i stack).ok h)
    have hr := hs i stack e r e1 h
    refine trans_of Repaints hb ⟨(displays_setRendering i r).run e1, fun hp => ?_⟩
    show Pictured (endState (setRendering i r e1)).workspace
      (endState (setRendering i r e1)).renderings
    unfold setRendering
    rw [get_bind]
    split
    · refine hp.set ?_
      rw [hb.workspace_eq, hw, hr]
      exact hi
    · exact hp

theorem repaints_refreshAll (hpi : ∀ i stack, Pictures (again i stack))
    (hs : ∀ i stack e r e', again i stack e = .ok r e' → r.stack = stack) (i : Int) :
    Keeps Repaints (refreshAll again i) := by
  constructor
  intro e
  unfold refreshAll
  rw [get_bind]
  split
  · refine Keeps.run (R := RepaintsIn e.workspace) ?_ e rfl
    refine .bind (.forIn _ _ fun p hp _ => ?_) fun _ => .pure _
    obtain ⟨stack, j⟩ := p
    have hj := mk_mem_zipIdx_iff_getElem?.1 hp
    have hse := Keeps.bind (repaintsIn_setRendering hpi hs hj) fun _ =>
      .pure (ForInStep.yield PUnit.unit)
    rwa [bind_assoc] at hse
  · exact refl e

end Refresh

theorem repaints_redraw (i : Int) : Keeps Repaints (redraw i) :=
  repaints_refreshAll (fun _ => pictures_render) (fun _ _ _ _ _ => stack_render) i

theorem repaints_rescaleAll (i : Int) : Keeps Repaints (rescaleAll i) :=
  repaints_refreshAll keeps_rescale (fun _ _ _ _ _ => stack_rescale) i

theorem moves_redraw (i : Int) : Keeps (Moves saved) (redraw i) :=
  (repaints_redraw i).mono fun _ _ => Repaints.moves

theorem moves_rescaleAll (i : Int) : Keeps (Moves saved) (rescaleAll i) :=
  (repaints_rescaleAll i).mono fun _ _ => Repaints.moves

/-! ## Changes of the forest -/

/-- The editor with another store. -/
def Editor.withStore (e : Editor) (s : Store) : Editor :=
  { e with canvas := { e.canvas with store := s } }

theorem store_bind {β : Type} (f : Store → Edit β) (e : Editor) :
    (store >>= f) e = f e.store e := rfl

theorem modifyStore_bind {β : Type} (g : Store → Store) (f : Unit → Edit β) (e : Editor) :
    (modifyStore g >>= f) e = f () (e.withStore (g e.store)) := rfl

theorem addStack_bind {β : Type} (bs : List BlockId) (p : Option (List Value)) (f : StackId → Edit β)
    (e : Editor) : (addStack bs p >>= f) e =
      f (e.store.addStack bs p).1 (e.withStore (e.store.addStack bs p).2) := rfl

theorem copyBlock_bind {β : Type} (b : BlockId) (f : BlockId → Edit β) (e : Editor) :
    (copyBlock b >>= f) e = f (e.store.copyBlock b).1 (e.withStore (e.store.copyBlock b).2) := rfl

theorem modifyStore_eq_ok {f : Store → Store} {u : Unit} :
    modifyStore f e = .ok u e' ↔ e' = e.withStore (f e.store) := by
  show EStateM.Result.ok () (e.withStore (f e.store)) = .ok u e' ↔ _
  constructor
  · intro h
    cases h
    rfl
  · rintro rfl
    rfl

theorem forest_withStore (e : Editor) (s : Store) :
    (e.withStore s).forest = ⟨s.bare, e.workspace, e.cursor⟩ := rfl

/-- Where a stack is does not matter for the core. -/
theorem core_setPosition (e : Editor) (t : StackId) (p : Option (List Value)) :
    (e.withStore (e.store.setPosition t p)).core = e.core := by
  have hf : (e.withStore (e.store.setPosition t p)).forest = e.forest := by
    rw [forest_withStore, Store.bare_setPosition]
    rfl
  unfold core
  rw [hf]
  rfl

/-- A menu goes on marking its stack while stacks are not renumbered. -/
theorem Menu.Marks.mono (h : m.Marks F) (hs : F.store.allStacks.size ≤ F'.store.allStacks.size)
    (hc : F'.cursor ≠ some m.stack) (hw : F'.workspace = F.workspace) : m.Marks F' :=
  ⟨h.stack_lt.trans_le hs, hc, hw ▸ h.index⟩

theorem Menu.Fits.mono (h : m.Fits F) (hb : F.store.blocks.size ≤ F'.store.blocks.size)
    (hs : F.store.allStacks.size ≤ F'.store.allStacks.size) (hc : F'.cursor ≠ some m.stack)
    (hw : F'.workspace = F.workspace) : m.Fits F' :=
  ⟨h.toMarks.mono hs hc hw, h.block_lt.trans_le hb⟩

/-- A menu goes on marking its stack when another one comes into the workspace. -/
theorem Menu.Marks.append (h : m.Marks F) (hs : F.store.allStacks.size ≤ F'.store.allStacks.size)
    (hc : F'.cursor ≠ some m.stack) (hw : F'.workspace = F.workspace ++ [t]) (ht : m.stack ≠ t) :
    m.Marks F' := by
  refine ⟨h.stack_lt.trans_le hs, hc, fun hm => ?_⟩
  rw [hw] at hm ⊢
  rcases mem_append.1 hm with hm | hm
  · obtain ⟨k, hk, hg⟩ := h.index hm
    exact ⟨k, hk, (List.getElem?_append_left (List.getElem?_eq_some_iff.1 hg).1).trans hg⟩
  · exact absurd (mem_singleton.1 hm) ht

theorem Menu.Fits.append (h : m.Fits F) (hb : F.store.blocks.size ≤ F'.store.blocks.size)
    (hs : F.store.allStacks.size ≤ F'.store.allStacks.size) (hc : F'.cursor ≠ some m.stack)
    (hw : F'.workspace = F.workspace ++ [t]) (ht : m.stack ≠ t) : m.Fits F' :=
  ⟨h.toMarks.append hs hc hw ht, h.block_lt.trans_le hb⟩

/-- The core with another forest, and renderings that are in step with it. -/
theorem Core.Steady.withForest {c : Core} (hs : c.Steady) {F : Forest} (hF : F.Sound)
    {renderings : List (Option Rendering)} (hp : Pictured F.workspace renderings)
    (hm : ∀ m, c.menu = some m → m.Fits F) : ({ c with forest := F, renderings } : Core).Steady :=
  { hs with
    forest := hF
    pictured := hp
    menu := hm }

/-- A change of the forest, with renderings that are in step with it. -/
theorem moves_forest (hco : e'.core = { e.core with forest := F, renderings })
    (hc : e.core.Steady → Changes saved e.forest F)
    (hp : e.core.Steady → Pictured F.workspace renderings)
    (hm : e.core.Steady → ∀ m, e.menu = some m → m.Fits F) : Moves saved e e' := by
  intro hs
  have hF : e'.forest = F := congrArg Core.forest hco
  rw [hco, hF]
  exact ⟨hs.withForest (hs.forest.changes (hc hs)) (hp hs) (hm hs), hc hs⟩

/-- One change of the store, with the workspace and the dragged stack as they are. -/
theorem Moves.withStore {s : Store} (hb : e.store.blocks.size ≤ s.blocks.size)
    (hst : e.store.allStacks.size ≤ s.allStacks.size)
    (h : e.core.Steady → Changes saved e.forest ⟨s.bare, e.workspace, e.cursor⟩) :
    Moves saved e (e.withStore s) := by
  intro hs
  have hF : Forest.Sound ⟨s.bare, e.workspace, e.cursor⟩ := hs.forest.changes (h hs)
  refine ⟨hs.withForest hF hs.pictured fun m hm =>
    (hs.menu m hm).mono ?_ ?_ (hs.menu m hm).not_dragged rfl, h hs⟩
  · show e.store.bare.blocks.size ≤ s.bare.blocks.size
    simpa using hb
  · show e.store.bare.allStacks.size ≤ s.bare.allStacks.size
    simpa using hst

theorem Moves.setValue_literal (b : BlockId) (i : Nat) (hv : v.Literal) :
    Moves saved e (e.withStore (e.store.setValue b i v)) := by
  refine .withStore (by simp) le_rfl fun _ => ?_
  rw [Store.bare_setValue]
  exact .single (.fill (F := e.forest) b i hv)

theorem assign_eq_ok {b : BlockId} {u : Unit} : assign b i v e = .ok u e' ↔
      i < (e.store.block b).values.length ∧ e' = e.withStore (e.store.setValue b i v) := by
  unfold assign
  rw [store_bind]
  by_cases hi : i < (e.store.block b).values.length
  · rw [if_pos hi, modifyStore_eq_ok]
    simp [hi]
  · rw [if_neg hi]
    simp [hi, throw_ne_ok]

/-- Putting a literal into a slot. -/
theorem moves_assign (b : BlockId) (i : Nat) (hv : v.Literal) : Keeps (Moves saved) (assign b i v) := by
  constructor
  intro e
  unfold assign
  rw [store_bind]
  split
  · exact .setValue_literal b i hv
  · exact refl e

end BlockStudio
