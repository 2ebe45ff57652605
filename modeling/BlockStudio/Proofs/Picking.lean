import BlockStudio.Proofs.Courses

/-!
# Picking up stacks and opening menus

A click that hits a block picks up a stack of the workspace, a body or the lower part of one of them;
a click on a reporter in a slot picks up a copy of it and leaves the slot unfilled.  All of these are
changes of the forest.  A click on a slot that opens a menu remembers which stack was clicked.
-/

namespace BlockStudio

open Forest Edit Store List Editor

variable {α : Type} {saved : Forest → Prop} {e e' : Editor} {s : Store} {stackIndex : Int} {p : Point}
  {fuel i : Nat} {b id : BlockId} {r : Rendering} {F : Forest} {t : StackId} {detach : Edit Unit}
  {u : Unit} {hit : Bool} {d : Definition}

/-! ## What is hit -/

theorem reads_hitIn (r : Rendering) (stackIndex : Int) : Reads (hitIn r stackIndex) := by
  unfold hitIn
  refine .bind .get fun e => .ite (fun _ => .pure _) fun _ => ?_
  refine .bind (.ofExcept _) fun p => .bind (.ofExcept _) fun i => ?_
  split
  · exact .pure _
  · split
    · exact .pure _
    · refine .bind (.ofExcept _) fun place => .bind (.ofExcept _) fun spot => ?_
      split
      · exact .pure _
      · refine .bind (.ofExcept _) fun path => ?_
        split
        · exact .pure _
        · exact .pure _

/-- A hit goes through a block of the stack, and from there along a path of slots or to a slot. -/
def Hit.Within (s : Store) (t : StackId) (stackIndex : Int) : Hit → Prop
  | .block i id => (s.blocksOf t)[i]? = some id
  | .reporter id slot path => id ∈ s.blocksOf t ∧
    ∃ p dx dy, s.pathAtTo p s.depth id dx dy = .ok (slot :: path)
  | .spot id place => id ∈ s.blocksOf t ∧
    ∃ p dx dy, s.spotAtTo stackIndex p s.depth id dx dy = .ok (some place)

section Along

variable {q : BlockId → Prop} (hq : ∀ b i c, q b → s.slot? b i = some (.block c) → q c) (hid : q id)
include hq hid

/-- What blocks in the slots of a block have from it, the block of a slot under a point has as well. -/
theorem along_spotAtTo {dx dy : Num} {spot : Spot}
    (h : s.spotAtTo stackIndex p fuel id dx dy = .ok (some spot)) :
    q spot.block ∧ spot.stackIndex = stackIndex := by
  induction fuel generalizing id dx dy with
  | zero => cases h
  | succ fuel ih =>
    unfold spotAtTo at h
    split at h
    · cases h
    · split at h
      · cases h
      · next hs => exact ih (hq _ _ _ hid hs) h
      · cases h
        exact ⟨hid, rfl⟩

theorem along_holder (slot : Nat) (path : List Nat) : q (s.holderAlong id slot path).1 := by
  induction path generalizing id slot with
  | nil => exact hid
  | cons next path ih =>
    unfold holderAlong
    split
    case h_1 inner hs => exact ih (hq _ _ _ hid hs) next
    case h_2 => exact hid

end Along

theorem within_of_hitIn {hit : Hit} (h : hitIn r stackIndex e = .ok (some hit) e') :
    hit.Within e.store r.stack stackIndex := by
  unfold hitIn at h
  rw [get_bind] at h
  split at h
  · obtain ⟨h, -⟩ := pure_eq_ok.1 h
    cases h
  · obtain ⟨p, -, h⟩ := ofExcept_bind_eq_ok.1 h
    obtain ⟨i, -, h⟩ := ofExcept_bind_eq_ok.1 h
    rcases i with _ | i <;> dsimp only at h
    · obtain ⟨h, -⟩ := pure_eq_ok.1 h
      cases h
    rcases hid : (e.store.blocksOf r.stack)[i]? with _ | id <;> simp only [hid] at h
    · obtain ⟨h, -⟩ := pure_eq_ok.1 h
      cases h
    have hm := mem_of_getElem? hid
    obtain ⟨place, -, h⟩ := ofExcept_bind_eq_ok.1 h
    obtain ⟨spot, hs, h⟩ := ofExcept_bind_eq_ok.1 h
    rcases spot with _ | spot <;> dsimp only at h
    · obtain ⟨path, hp, h⟩ := ofExcept_bind_eq_ok.1 h
      rcases path with _ | ⟨slot, path⟩ <;> dsimp only at h <;> obtain ⟨h, -⟩ := pure_eq_ok.1 h <;>
        cases h
      · exact hid
      · exact ⟨hm, _, _, _, hp⟩
    · obtain ⟨h, -⟩ := pure_eq_ok.1 h
      cases h
      exact ⟨hm, _, _, _, hs⟩

/-! ## Picking up stacks -/

/-- How a stack is taken away from its place: out of the workspace or out of a slot. -/
inductive Grasp (F : Forest) (t : StackId) : Edit Unit → Prop where
  | top {k : Nat} (hk : F.workspace[k]? = some t) : Grasp F t (removeStack k)
  | body {b : BlockId} {i : Nat} (hb : F.store.slot? b i = some (.stack t)) :
    Grasp F t (assign b i .none)

theorem Grasp.mem_or_held (h : Grasp F t detach) : t ∈ F.workspace ∨ F.store.Held t := by
  cases h with
  | top hk => exact .inl (mem_of_getElem? hk)
  | body hb => exact .inr ⟨_, _, hb⟩

/-- Picking up something while no menu is open. -/
theorem Moves.withCursor (hme : e.menu = none)
    (h : e.core.Steady → Changes saved e.forest ⟨s.bare, e.workspace, some t⟩) :
    Moves saved e (e.withCursor s t) := by
  refine moves_forest (F := ⟨s.bare, e.workspace, some t⟩) rfl h (fun hs => hs.pictured) ?_
  intro _ m hm
  cases hme.symm.trans hm

theorem bare_lifted (e : Editor) (t : StackId) :
    (e.store.copyStack t).2.bare = (e.forest.store.copyStack t).2 ∧
      (e.store.copyStack t).1 = ⟨e.forest.store.allStacks.size⟩ :=
  ⟨Store.bare_copyStack _ _, by simp [Store.copyStack, Store.addStack, forest]⟩

/-- Picking up a whole stack of the workspace, up to the drawing that follows. -/
theorem Moves.liftStack {k : Nat} (hme : e.menu = none) (hk : e.forest.workspace[k]? = some t) :
    Moves saved e { e.withCursor (e.store.copyStack t).2 (e.store.copyStack t).1 with
      workspace := e.workspace.eraseIdx k, renderings := e.renderings.eraseIdx k } := by
  obtain ⟨hb, hn⟩ := bare_lifted e t
  have hc : ({ e.withCursor (e.store.copyStack t).2 (e.store.copyStack t).1 with
      workspace := e.workspace.eraseIdx k, renderings := e.renderings.eraseIdx k } : Editor).core =
      { e.core with
        forest := ⟨(e.forest.store.copyStack t).2, e.workspace.eraseIdx k,
          some ⟨e.forest.store.allStacks.size⟩⟩
        renderings := e.renderings.eraseIdx k } := by
    rw [← hb, ← hn]
    rfl
  exact moves_forest hc (fun _ => .single (.liftStack hk)) (fun hs => hs.pictured.eraseIdx k)
    fun _ m hm => by cases hme.symm.trans hm

/-- Picking up a whole stack. -/
theorem Moves.lift (hm : e.menu = none) (hg : Grasp e.forest t detach)
    (hne : e.store.blocksOf t ≠ [])
    (h : detach (e.withCursor (e.store.copyStack t).2 (e.store.copyStack t).1) = .ok u e') :
    Moves saved e e' := by
  cases hg with
  | top hk =>
    exact .trans (.liftStack hm hk) ((moves_redraw _).ok (removeStack_eq_ok h))
  | @body b i hb =>
    obtain ⟨hba, hn⟩ := bare_lifted e t
    obtain ⟨-, rfl⟩ := assign_eq_ok.1 h
    refine .withCursor (s := (e.store.copyStack t).2.setValue b i .none) hm fun _ => ?_
    rw [bare_setValue, hba, hn]
    refine .single (.liftBody hb ?_)
    simpa [forest] using hne

theorem bare_cut (e : Editor) (t : StackId) (i : Nat) :
    (cut e.store t i).bare = cut e.forest.store t i := by
  simp [cut, forest]

/-- Picking up the lower part of a stack. -/
theorem Moves.split (hm : e.menu = none) (ht : t ∈ e.forest.workspace ∨ e.forest.store.Held t)
    (h0 : i ≠ 0) (hi : i < (e.store.blocksOf t).length) :
    Moves saved e (e.withCursor (cut e.store t i) ⟨e.store.allStacks.size⟩) := by
  refine .withCursor hm fun _ => ?_
  rw [bare_cut, ← size_allStacks_forest]
  refine .single (.split ht h0 ?_)
  simpa [forest] using hi

theorem Moves.pickBlocks (hm : e.menu = none) (hg : Grasp e.forest r.stack detach)
    (hi : (e.store.blocksOf r.stack)[i]? = some id) (h : pickBlocks r detach i id e = .ok p e') :
    Moves saved e e' := by
  obtain ⟨hlt, -⟩ := List.getElem?_eq_some_iff.1 hi
  rcases pickBlocks_cases h with ⟨-, h⟩ | ⟨h0, rfl⟩
  · refine .lift hm hg (fun hn => ?_) h
    rw [hn] at hlt
    exact absurd hlt (Nat.not_lt_zero _)
  · exact .split hm hg.mem_or_held h0 hlt

/-- A copy of a block without a filled body is picked up. -/
theorem change_hold_copy (hF : e.forest.Sound) (hb : b.index < e.forest.store.blocks.size)
    (hbo : ¬e.forest.store.HasBody b) :
    Change saved e.forest ⟨((e.store.copyBlock b).2.addStack [(e.store.copyBlock b).1] none).2.bare,
      e.workspace, some ⟨(e.store.copyBlock b).2.allStacks.size⟩⟩ := by
  have hc := hF.store.copyBlock hb
  have hco : e.forest.store.copyBlock b =
      ((e.store.copyBlock b).1, (e.store.copyBlock b).2.bare) := copyBlock_bare _ b
  rw [hco] at hc
  have hh : Change saved e.forest _ := .hold hc.sprouts (hc.fresh hbo)
  rw [size_allStacks_bare] at hh
  rw [bare_addStack]
  exact hh

theorem Moves.pickReporter {slot : Nat} {path : List Nat} (hm : e.menu = none)
    (h : pickReporter r id slot path e = .ok p e') : Moves saved e e' := by
  obtain ⟨ho, last, chosen, -, hsl, ha⟩ := pickReporter_cases h
  refine .trans (.withCursor hm fun hs => ?_)
    ((moves_assign _ _ (v := .none) trivial).ok ha)
  obtain ⟨c, -, hlt, hr, -⟩ := hs.forest.store.fits_slot? ((slot?_forest ..).trans hsl)
  exact .single (change_hold_copy hs.forest hlt (hs.forest.store.not_hasBody hr))

theorem Moves.takeGrip {i : Int} (h : takeGrip i p e = .ok u e') : Moves saved e e' := by
  obtain ⟨e1, grip, hd, rfl⟩ := takeGrip_cases h
  exact .trans ((moves_redraw _).ok hd) (.of_core rfl)

/-! ## Menus -/

theorem mem_of_optionsFor {globals : List Value} {target : MenuTarget} {v : Value}
    (h : .varName v ∈ optionsFor globals target) : v ∈ globals := by
  cases target <;> simp [optionsFor] at h
  exact h

/-- Opening a menu that fits. -/
protected theorem Moves.openMenu {m : Menu} (hm : e.core.Steady → m.Fits e.forest)
    (h : openMenu m e = .ok u e') : Moves saved e e' := by
  obtain ⟨e1, _, _, hi, -, rfl⟩ := openMenu_cases h
  let opened : Editor := { e with menu := some m, options := optionsFor e.globals m.target }
  have ho : Moves saved e opened := by
    refine fun hs => ⟨{ hs with options := ?_, menu := ?_ }, .refl⟩
    · exact fun v hv => hs.globals v (mem_of_optionsFor hv)
    · intro m' hm'
      cases hm'
      exact hm hs
  have hc : e1.core = opened.core := (congrArg core hi :)
  exact .trans ho (.of_core hc)

/-- A stack that is clicked: it is in the workspace under its number, or it is a body. -/
structure Clicked (F : Forest) (t : StackId) (stackIndex : Int) : Prop where
  shown : t ∈ F.workspace ∨ F.store.Held t
  index : t ∈ F.workspace → ∃ k : Nat, stackIndex = k ∧ F.workspace[k]? = some t

theorem Clicked.marks (h : Clicked F t stackIndex) (hn : F.roots.Nodup)
    (ha : ∀ t, F.store.Held t → t ∉ F.roots) (ht : t.index < F.store.allStacks.size)
    (target : MenuTarget) : Menu.Marks F ⟨t, id, stackIndex, target⟩ where
  stack_lt := ht
  not_dragged hc := by
    rcases h.shown with hm | hh
    · exact not_mem_workspace hn hc hm
    · exact ha t hh (mem_roots.2 (.inr hc))
  index := h.index

theorem Clicked.fits (hF : F.Sound) (h : Clicked F t stackIndex) (hid : id.index < F.store.blocks.size)
    (target : MenuTarget) : Menu.Fits F ⟨t, id, stackIndex, target⟩ :=
  ⟨h.marks hF.nodup hF.apart (hF.shown_lt (h.shown.imp_left fun ht => workspace_subset_roots ht)) target, hid⟩

theorem Clicked.body (ha : ∀ t, F.store.Held t → t ∉ F.roots) (h : F.store.slot? b i = some (.stack t)) (stackIndex : Int) :
    Clicked F t stackIndex where
  shown := .inr ⟨b, i, h⟩
  index ht := absurd (workspace_subset_roots ht) (ha t ⟨b, i, h⟩)

theorem renderBody_eq_ok {spot : Spot} (h : renderBody spot e = .ok r e') :
    e'.forest.store.slot? spot.block spot.slot = some (.stack r.stack) ∧ e'.core = e.core := by
  unfold renderBody at h
  obtain ⟨v, hv, h⟩ := (reads_slotValue _ _).bind_eq_ok h
  cases v with
  | stack body =>
    have hc := (pictures_render body).aside.core.ok h
    refine ⟨?_, hc⟩
    rw [show e'.forest = e.forest from congrArg Core.forest hc, stack_render h, ← (slotValue_eq_ok.1 hv).1]
    simp [forest, slot?]
  | _ => exact absurd h throw_ne_ok

/-! ## Clicks -/

/-- What a click on a stack does: it hits nothing, picks something up, or goes to a slot. -/
inductive Clicks (fuel : Nat) (r : Rendering) (stackIndex : Int) (detach : Edit Unit) (e : Editor) :
    Bool → Editor → Prop where
  | miss (hhit : hitIn r stackIndex e = .ok none e) : Clicks fuel r stackIndex detach e false e
  | block {i : Nat} {id : BlockId} {p : Point} {e1 e' : Editor}
    (hid : (e.store.blocksOf r.stack)[i]? = some id)
    (hpick : pickBlocks r detach i id e = .ok p e1)
    (hgrip : takeGrip stackIndex p e1 = .ok () e') : Clicks fuel r stackIndex detach e true e'
  | reporter {id : BlockId} {slot : Nat} {path : List Nat} {p : Point} {e1 e' : Editor}
    (hid : id ∈ e.store.blocksOf r.stack) (hpick : pickReporter r id slot path e = .ok p e1)
    (hgrip : takeGrip stackIndex p e1 = .ok () e') : Clicks fuel r stackIndex detach e true e'
  | flip {spot : Spot} {v : Bool} {c : Component} {e1 e' : Editor}
    (hcomp : (e.store.definitionOf spot.block).inputs[spot.slot]? = some c)
    (hkind : c.kind = .boolean)
    (hassign : assign spot.block spot.slot (.bool v) e = .ok () e1)
    (hdraw : redraw stackIndex e1 = .ok () e') : Clicks fuel r stackIndex detach e true e'
  | body {id : BlockId} {spot : Spot} {b : Rendering} {hit : Bool} {e1 e2 e' : Editor}
    (hhit : hitIn r stackIndex e = .ok (some (.spot id spot)) e)
    (hbody : renderBody spot e = .ok b e1)
    (hclick : clickTo fuel b stackIndex (assign spot.block spot.slot .none) e1 = .ok hit e2)
    (hdraw : redraw stackIndex e2 = .ok () e') : Clicks fuel r stackIndex detach e true e'
  | choose {id : BlockId} {spot : Spot} {e1 e' : Editor} (hid : id ∈ e.store.blocksOf r.stack)
    (hname : e.store.IsName spot.block spot.slot)
    (hopen : openMenu ⟨r.stack, id, stackIndex, .varSlot spot⟩ e = .ok () e1)
    (hdraw : redraw stackIndex e1 = .ok () e') : Clicks fuel r stackIndex detach e true e'
  | edit {spot : Spot} {c : Component} {e' : Editor} (hspot : spot.stackIndex = stackIndex)
    (hcomp : (e.store.definitionOf spot.block).inputs[spot.slot]? = some c)
    (hkind : c.kind ≠ .varName ∧ c.kind ≠ .statement)
    (hdraw : redraw stackIndex { e with editing := true, edited := some spot } = .ok () e') :
    Clicks fuel r stackIndex detach e true e'

theorem clickTo_eq_ok (h : clickTo (fuel + 1) r stackIndex detach e = .ok hit e') :
    Clicks fuel r stackIndex detach e hit e' := by
  unfold clickTo at h
  obtain ⟨found, hf, h⟩ := (reads_hitIn r stackIndex).bind_eq_ok h
  rcases found with _ | ⟨i, id⟩ | ⟨id, slot, path⟩ | ⟨id, spot⟩
  · obtain ⟨rfl, rfl⟩ := pure_eq_ok.1 h
    exact .miss hf
  · obtain ⟨p, e1, h1, h⟩ := bind_eq_ok.1 h
    obtain ⟨_, e2, h2, h⟩ := bind_eq_ok.1 h
    obtain ⟨rfl, rfl⟩ := pure_eq_ok.1 h
    exact .block (within_of_hitIn hf) h1 h2
  · obtain ⟨p, e1, h1, h⟩ := bind_eq_ok.1 h
    obtain ⟨_, e2, h2, h⟩ := bind_eq_ok.1 h
    obtain ⟨rfl, rfl⟩ := pure_eq_ok.1 h
    exact .reporter (within_of_hitIn hf).1 h1 h2
  · obtain ⟨hid, _, _, _, hs⟩ := within_of_hitIn hf
    obtain ⟨c, hc, h⟩ := (reads_slotComponent _ _).bind_eq_ok h
    have hco := (slotComponent_eq_ok.1 hc).1
    have hr : ∀ {e1 : Editor}, (do
          redraw stackIndex
          return true) e1 = .ok hit e' → hit = true ∧ redraw stackIndex e1 = .ok () e' := by
      intro e1 h
      obtain ⟨_, e2, h2, h⟩ := bind_eq_ok.1 h
      obtain ⟨rfl, rfl⟩ := pure_eq_ok.1 h
      exact ⟨rfl, h2⟩
    revert h
    cases hk : c.kind with
    | boolean =>
      intro h
      obtain ⟨v, -, h⟩ := (reads_slotValue _ _).bind_eq_ok h
      obtain ⟨_, e1, h1, h⟩ := bind_eq_ok.1 h
      obtain ⟨rfl, hd⟩ := hr h
      exact .flip hco hk h1 hd
    | statement =>
      intro h
      obtain ⟨body, e1, h1, h⟩ := bind_eq_ok.1 h
      obtain ⟨_, e2, h2, h⟩ := bind_eq_ok.1 h
      obtain ⟨rfl, hd⟩ := hr h
      exact .body hf h1 h2 hd
    | varName =>
      intro h
      obtain ⟨_, e1, h1, h⟩ := bind_eq_ok.1 h
      obtain ⟨rfl, hd⟩ := hr h
      exact .choose hid ⟨c, hco, hk⟩ h1 hd
    | _ =>
      intro h
      obtain ⟨_, e1, h1, h⟩ := bind_eq_ok.1 h
      obtain rfl := modify_eq_ok.1 h1
      obtain ⟨rfl, hd⟩ := hr h
      have hsh := (along_spotAtTo (q := fun _ => True) (fun _ _ _ _ _ => trivial) trivial hs).2
      exact .edit hsh hco (by simp [hk]) hd

/-- Clicking on a stack changes the forest step by step. -/
theorem Moves.clickTo (hs : e.core.Steady) (hm : e.menu = none)
    (hgr : Grasp e.forest r.stack detach) (hc : Clicked e.forest r.stack stackIndex)
    (h : clickTo fuel r stackIndex detach e = .ok hit e') : Moves saved e e' := by
  induction fuel generalizing r detach hit e e' with
  | zero => exact (pure_eq_ok.1 h).2 ▸ refl e
  | succ fuel ih =>
    cases clickTo_eq_ok h with
    | miss => exact refl e
    | block hid hpi hg =>
      have hp : Moves saved e _ := .pickBlocks hm hgr hid hpi
      exact .trans hp (.takeGrip hg)
    | reporter _ hpi hg =>
      have hp : Moves saved e _ := .pickReporter hm hpi
      exact .trans hp (.takeGrip hg)
    | flip _ _ ha hd =>
      exact .trans ((moves_assign _ _ (v := .bool _) trivial).ok ha)
        ((moves_redraw _).ok hd)
    | @body _ spot b hit e1 e2 _ _ hb hcl hd =>
      obtain ⟨hsl, hco⟩ := renderBody_eq_ok hb
      have hm1 : e1.menu = none := (congrArg Core.menu hco).trans hm
      have hs1 : e1.core.Steady := hco ▸ hs
      have hn : Moves saved e1 e2 :=
        ih hs1 hm1 (.body hsl) (.body hs1.forest.apart hsl stackIndex) hcl
      exact .trans (.of_core hco) (.trans hn ((moves_redraw _).ok hd))
    | @choose id spot e1 _ hid _ hop hd =>
      rw [← blocksOf_forest] at hid
      have ho : Moves saved e e1 := .openMenu (fun hs =>
        hc.fits hs.forest (hs.forest.store.mem_blocksOf hid) (.varSlot spot)) hop
      exact .trans ho ((moves_redraw _).ok hd)
    | edit _ _ _ hd =>
      exact trans_of (Moves saved) (b := { e with editing := true, edited := some _ })
        (.of_core rfl) ((moves_redraw _).ok hd)

/-- What a click with the right button on a stack does: it hits nothing, opens a menu for a block,
goes to a body, or hits a slot. -/
inductive RightClicks (fuel : Nat) (r : Rendering) (stackIndex : Int) (e : Editor) :
    Bool → Editor → Prop where
  | miss (hhit : hitIn r stackIndex e = .ok none e) : RightClicks fuel r stackIndex e false e
  | block {i : Nat} {id : BlockId} {e' : Editor} (hid : (e.store.blocksOf r.stack)[i]? = some id)
    (hopen : openMenu ⟨r.stack, id, stackIndex, .block i⟩ e = .ok () e') :
    RightClicks fuel r stackIndex e true e'
  | reporter {id : BlockId} {slot : Nat} {path : List Nat} {e' : Editor}
    (hid : id ∈ e.store.blocksOf r.stack)
    (hhit : hitIn r stackIndex e = .ok (some (.reporter id slot path)) e)
    (hopen : openMenu ⟨r.stack, (e.store.holderAlong id slot path).1, stackIndex,
      .reporter (e.store.holderAlong id slot path).2⟩ e = .ok () e') :
    RightClicks fuel r stackIndex e true e'
  | body {id : BlockId} {spot : Spot} {b : Rendering} {hit : Bool} {e1 e' : Editor}
    (hhit : hitIn r stackIndex e = .ok (some (.spot id spot)) e)
    (hbody : renderBody spot e = .ok b e1)
    (hclick : rightClickTo fuel b stackIndex e1 = .ok hit e') :
    RightClicks fuel r stackIndex e true e'
  | slot : RightClicks fuel r stackIndex e true e

theorem rightClickTo_eq_ok (h : rightClickTo (fuel + 1) r stackIndex e = .ok hit e') :
    RightClicks fuel r stackIndex e hit e' := by
  unfold rightClickTo at h
  obtain ⟨found, hf, h⟩ := (reads_hitIn r stackIndex).bind_eq_ok h
  rcases found with _ | ⟨i, id⟩ | ⟨id, slot, path⟩ | ⟨id, spot⟩
  · obtain ⟨rfl, rfl⟩ := pure_eq_ok.1 h
    exact .miss hf
  · obtain ⟨_, e1, h1, h⟩ := bind_eq_ok.1 h
    obtain ⟨rfl, rfl⟩ := pure_eq_ok.1 h
    exact .block (within_of_hitIn hf) h1
  · dsimp only at h
    rw [store_bind] at h
    obtain ⟨_, e1, h1, h⟩ := bind_eq_ok.1 h
    obtain ⟨rfl, rfl⟩ := pure_eq_ok.1 h
    exact .reporter (within_of_hitIn hf).1 hf h1
  · obtain ⟨c, -, h⟩ := (reads_slotComponent _ _).bind_eq_ok h
    split at h
    · obtain ⟨body, e1, h1, h⟩ := bind_eq_ok.1 h
      obtain ⟨_, e2, h2, h⟩ := bind_eq_ok.1 h
      obtain ⟨rfl, rfl⟩ := pure_eq_ok.1 h
      exact .body hf h1 h2
    · obtain ⟨rfl, rfl⟩ := pure_eq_ok.1 h
      exact .slot

theorem Moves.rightClickTo (hs : e.core.Steady) (hc : Clicked e.forest r.stack stackIndex)
    (h : rightClickTo fuel r stackIndex e = .ok hit e') : Moves saved e e' := by
  induction fuel generalizing r hit e e' with
  | zero => exact (pure_eq_ok.1 h).2 ▸ refl e
  | succ fuel ih =>
    have hm : ∀ id ∈ e.store.blocksOf r.stack, id.index < e.forest.store.blocks.size := fun id hid =>
      hs.forest.store.mem_blocksOf (blocksOf_forest e r.stack ▸ hid)
    have ho : ∀ {b : BlockId} {target : MenuTarget} {e1 : Editor},
        b.index < e.forest.store.blocks.size →
        openMenu ⟨r.stack, b, stackIndex, target⟩ e = .ok () e1 → Moves saved e e1 := fun hb =>
      .openMenu fun hs => hc.fits hs.forest hb _
    cases rightClickTo_eq_ok h with
    | miss | slot => exact refl e
    | block hid hop => exact ho (hm _ (mem_of_getElem? hid)) hop
    | reporter hid _ hop =>
      refine ho (along_holder (q := (·.index < e.forest.store.blocks.size)) ?_ (hm _ hid) ..) hop
      exact fun _ _ _ _ hsl => hs.forest.store.block_lt ((slot?_forest ..).trans hsl)
    | @body _ spot b hit e1 _ _ hbo hcl =>
      obtain ⟨hsl, hco⟩ := renderBody_eq_ok hbo
      have hs1 : e1.core.Steady := hco ▸ hs
      exact .trans (.of_core hco) (ih hs1 (.body hs1.forest.apart hsl stackIndex) hcl)

/-- Trying the stacks from front to back: one is hit, or the workspace is drawn. -/
theorem tryStacks_eq_ok {click : Rendering → Nat → Edit Bool} {l : List (Option Rendering × Nat)}
    (hm : ∀ r i e', click r i e = .ok false e' → e' = e) (h : tryStacks click l e = .ok u e') :
    redraw (-1) e = .ok u e' ∨ ∃ r i, (some r, i) ∈ l ∧ click r i e = .ok true e' := by
  induction l with
  | nil => exact .inl h
  | cons p rest ih =>
    obtain ⟨r, i⟩ := p
    cases r with
    | none => exact absurd h throw_ne_ok
    | some r =>
      unfold tryStacks at h
      obtain ⟨hit, e1, h1, h⟩ := bind_eq_ok.1 h
      cases hit with
      | true =>
        obtain ⟨-, rfl⟩ := pure_eq_ok.1 h
        exact .inr ⟨r, i, mem_cons_self, h1⟩
      | false =>
        rw [hm r i e1 h1] at h
        exact (ih h).imp_right fun ⟨r, i, hme, hc⟩ => ⟨r, i, mem_cons_of_mem _ hme, hc⟩

theorem getElem?_of_mem_reverse (h : (some r, i) ∈ e.renderings.zipIdx.reverse) :
    e.renderings[i]? = some (some r) :=
  mk_mem_zipIdx_iff_getElem?.1 (mem_reverse.1 h)

theorem clickWorkspace_eq_ok (h : clickWorkspace e = .ok u e') :
    redraw (-1) e = .ok u e' ∨ ∃ r, ∃ i : Nat, e.renderings[i]? = some (some r) ∧
      clickTo e.store.depth r i (removeStack i) e = .ok true e' := by
  unfold clickWorkspace at h
  rw [get_bind] at h
  refine (tryStacks_eq_ok (fun r i e1 h => ?_) h).imp_right
    fun ⟨r, i, hm, hc⟩ => ⟨r, i, getElem?_of_mem_reverse hm, hc⟩
  cases clickTo_eq_ok h
  rfl

theorem rightClickWorkspace_eq_ok (h : rightClickWorkspace e = .ok u e') :
    redraw (-1) e = .ok u e' ∨ ∃ r, ∃ i : Nat, e.renderings[i]? = some (some r) ∧
      rightClickTo e.store.depth r i e = .ok true e' := by
  unfold rightClickWorkspace at h
  rw [get_bind] at h
  refine (tryStacks_eq_ok (fun r i e1 h => ?_) h).imp_right
    fun ⟨r, i, hm, hc⟩ => ⟨r, i, getElem?_of_mem_reverse hm, hc⟩
  cases rightClickTo_eq_ok h
  rfl

theorem Clicked.top {k : Nat} (hk : F.workspace[k]? = some t) : Clicked F t k :=
  ⟨.inl (mem_of_getElem? hk), fun _ => ⟨k, rfl, hk⟩⟩

theorem Moves.clickWorkspace (hm : e.menu = none) (h : clickWorkspace e = .ok u e') :
    Moves saved e e' := by
  intro hs
  rcases clickWorkspace_eq_ok h with h | ⟨r, i, hr, h⟩
  · exact (moves_redraw _).ok h hs
  · have hi := hs.pictured.stack_eq i r hr
    exact Moves.clickTo hs hm (.top hi) (.top hi) h hs

theorem Moves.rightClickWorkspace (h : rightClickWorkspace e = .ok u e') : Moves saved e e' := by
  intro hs
  rcases rightClickWorkspace_eq_ok h with h | ⟨r, i, hr, h⟩
  · exact (moves_redraw _).ok h hs
  · exact Moves.rightClickTo hs (.top (hs.pictured.stack_eq i r hr)) h hs

/-! ## The palette -/

/-- A new block of the catalogue, with nothing in its slots. -/
theorem sprouts_unfilled (hs : s.Sound) (hd : d ∈ Catalogue.blocks) :
    Sprouts s s (s.addBlock d (List.replicate d.countInputs .none)).2 [.block ⟨s.blocks.size⟩] ∧
      Fresh s (s.addBlock d (List.replicate d.countInputs .none)).2 [.block ⟨s.blocks.size⟩] := by
  have hl : ∀ v ∈ replicate d.countInputs Value.none, v.Literal := by
    intro v hv
    rw [eq_of_mem_replicate hv]
    trivial
  have hsp : Sprouts s s s (replicate d.countInputs .none) := .of_literals hs hl
  refine ⟨hsp.addBlock hd (by simp) (fun i c v _ hv => ?_) fun t ht => ?_,
    Fresh.addBlock hsp (.of_literals hs hl) d⟩
  · exact fits_of_literal (hl v (mem_of_getElem? hv)) c
  · exact (hl _ ht).elim

theorem change_hold_new (hF : e.forest.Sound) (hd : d ∈ Catalogue.blocks) : Change saved e.forest
      ⟨((e.store.addBlock d (List.replicate d.countInputs .none)).2.addStack
          [⟨e.store.blocks.size⟩] none).2.bare,
        e.workspace,
        some ⟨(e.store.addBlock d (List.replicate d.countInputs .none)).2.allStacks.size⟩⟩ := by
  obtain ⟨hs, hf⟩ := sprouts_unfilled hF.store hd
  have hb : (e.store.addBlock d (replicate d.countInputs .none)).2.bare =
      (e.forest.store.addBlock d (replicate d.countInputs .none)).2 := bare_addBlock _ _ _
  have hh : Change saved e.forest _ := .hold hs hf
  rw [← hb, size_allStacks_bare, size_blocks_forest] at hh
  rw [bare_addStack]
  exact hh

theorem Moves.clickPalette (hm : e.menu = none) (h : clickPalette e = .ok u e') :
    Moves saved e e' := by
  cases clickPalette_cases h with
  | nothing => exact refl e
  | category _ hd => exact .trans (.of_core (by rfl)) (moves_drawPalette.ok hd)
  | @block item _ hi =>
    have ht : Moves saved e (e.withNew item.definition) := .withCursor hm fun hs =>
      .single (change_hold_new hs.forest (hs.palette item hi))
    exact .trans ht (.of_core rfl)

end BlockStudio
