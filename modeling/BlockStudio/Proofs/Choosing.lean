import BlockStudio.Proofs.Picking

/-!
# Choosing from menus

A menu offers to delete or to duplicate a block, or to choose a variable.  Deleting a block never
leaves a stack of the workspace empty, because a menu for its first block deletes the whole stack.
Duplicating makes a copy with blocks of its own, unless a whole stack or a block with a filled body is
duplicated: these are the two cases of `Menu.Shares`.
-/

namespace BlockStudio

open Forest Store Edit Editor

variable {α : Type} {saved : Forest → Prop} {m : Menu} {e e1 e' : Editor} {grip : Point} {u : Unit}
  {i : Nat} {button : Int}

/-! ## Menus for whole stacks -/

/-- A menu counts for the whole stack when it was opened for the first block of a stack that is in
the workspace. -/
theorem menuForStack_eq_ok {whole : Bool} (hm : m.Marks e.forest)
    (h : menuForStack m e = .ok whole e') :
    whole = true ↔ m.target = .block 0 ∧ m.stack ∈ e.workspace := by
  have hi : m.stack ∈ e.workspace → itemAt? e.workspace m.stackIndex = some m.stack := by
    intro hme
    obtain ⟨k, hk, hg⟩ := hm.index hme
    have hlt : k < e.workspace.length := (List.getElem?_eq_some_iff.1 hg).1
    rw [hk, itemAt?, placeIn_natCast hlt]
    exact hg
  unfold menuForStack at h
  split at h
  case isFalse hn =>
    obtain ⟨rfl, -⟩ := pure_eq_ok.1 h
    simp only [Bool.false_eq_true, false_iff, not_and]
    intro ht
    simp [ht, MenuTarget.number?] at hn
  case isTrue hn =>
    rw [get_bind] at h
    rcases hg : itemAt? e.workspace m.stackIndex with _ | stack <;> simp only [hg] at h
    · exact absurd h throw_ne_ok
    · obtain ⟨rfl, -⟩ := pure_eq_ok.1 h
      have hme : stack ∈ e.workspace := mem_of_itemAt? hg
      constructor
      · intro hw
        rw [Bool.and_eq_true, beq_iff_eq] at hw
        obtain ⟨rfl, hr⟩ := hw
        refine ⟨?_, hme⟩
        rcases ht : m.target with i | slot | spot
        · simpa [ht, MenuTarget.number?] using hn
        · simp [Menu.isReporter, ht] at hr
        · simp [ht, MenuTarget.number?] at hn
      · rintro ⟨ht, hs⟩
        rw [hi hs] at hg
        cases hg
        simp [Menu.isReporter, ht]

/-! ## Deleting -/

/-- A deleted stack is gone from the workspace. -/
theorem not_mem_eraseIdx_findIdx {workspace : List StackId} (hn : workspace.Nodup)
    (t : StackId) : t ∉ workspace.eraseIdx (workspace.findIdx (· == t)) := by
  intro hm
  obtain ⟨j, hne, hj⟩ := List.mem_eraseIdx_iff_getElem?.1 hm
  obtain ⟨hlt, hg⟩ := List.getElem?_eq_some_iff.1 hj
  have hfi : workspace.findIdx (· == t) < workspace.length :=
    List.findIdx_lt_length_of_exists ⟨t, List.mem_of_mem_eraseIdx hm, by simp⟩
  have hf : workspace[workspace.findIdx (· == t)] = t := by
    simpa using List.findIdx_getElem (w := hfi)
  exact hne ((List.getElem_inj hn).1 (hg.trans hf.symm))

theorem Moves.removeStack (hm : e.menu = some m) : Moves saved e { e with
    workspace := e.workspace.eraseIdx (e.workspace.findIdx (· == m.stack))
    renderings := e.renderings.eraseIdx (e.workspace.findIdx (· == m.stack)) } := by
  refine moves_forest (F := ⟨e.forest.store, e.workspace.eraseIdx _, e.cursor⟩) rfl
    (fun _ => .single (.removeStack _)) (fun hs => hs.pictured.eraseIdx _) fun hs m' hm' => ?_
  cases hm.symm.trans hm'
  have hf := hs.menu m hm
  have hg := not_mem_eraseIdx_findIdx hs.forest.nodup_workspace m.stack
  exact { hf with index := fun hme => absurd hme hg }

theorem Moves.removeBlock {t : StackId} (ht : e.core.Steady → t.index < e.forest.store.allStacks.size)
    (hi : e.core.Steady → t ∈ e.forest.roots → i ≠ 0) :
    Moves saved e (e.withStore (e.store.editRow t (·.eraseIdx i))) := by
  refine .withStore le_rfl le_rfl fun hs => ?_
  rw [bare_editRow]
  exact .single (.removeBlock (ht hs) (hi hs))

/-- A block that does not stand for a whole stack is not the first one of a root. -/
theorem Menu.Marks.ne_zero (hm : m.Marks e.forest)
    (hp : ¬(m.target = .block 0 ∧ m.stack ∈ e.workspace)) (ht : m.target = .block i)
    (hr : m.stack ∈ e.forest.roots) : i ≠ 0 := by
  rintro rfl
  rcases mem_roots.1 hr with hme | hc
  · exact hp ⟨ht, hme⟩
  · exact hm.not_dragged hc

/-! ## Duplicating -/

/-- Duplicating what the menu was opened for makes a copy that shows blocks of the original. -/
def Menu.Shares (F : Forest) (m : Menu) : Prop :=
  (m.target = .block 0 ∧ m.stack ∈ F.workspace) ∨ (m.isReporter = false ∧ F.store.HasBody m.block)

/-- A copy that hangs on the mouse leaves the editor steady if the forest is sound with it. -/
theorem steady_hanging {s : Store} {cursor : StackId} (hs : e.core.Steady)
    (hF : Forest.Sound ⟨s.bare, e.workspace, some cursor⟩)
    (hb : e.store.blocks.size ≤ s.blocks.size)
    (hst : e.store.allStacks.size ≤ s.allStacks.size) (hn : e.store.allStacks.size ≤ cursor.index) :
    ((e.withCursor s cursor).hanging grip).core.Steady := by
  refine hs.withForest hF hs.pictured fun m hm => ?_
  have hf := hs.menu m hm
  refine hf.mono ?_ ?_ (fun h => ?_) rfl
  · simpa [core, forest] using hb
  · simpa [core, forest] using hst
  · have hlt := hf.stack_lt
    cases h
    simp only [core, forest, size_allStacks_bare] at hlt
    omega

/-- Duplicating a block is a change of the forest, unless it has a filled body. -/
theorem moves_or_share_withCopy {b : BlockId} (hs : e.core.Steady)
    (hb : b.index < e.forest.store.blocks.size) :
    Moves saved e ((e.withCopy b).hanging grip) ∨ e.forest.store.HasBody b ∧
      ((e.withCopy b).hanging grip).core.Steady ∧
      Share e.forest ((e.withCopy b).hanging grip).forest := by
  have hF : e.forest.Sound := hs.forest
  have hco : e.forest.store.copyBlock b =
      ((e.store.copyBlock b).1, (e.store.copyBlock b).2.bare) := copyBlock_bare _ b
  have hc := hF.store.copyBlock hb
  rw [hco] at hc
  have hse : ((e.withCopy b).hanging grip).core.Steady := by
    have hbl := hc.sprouts.grown.blocks_le
    have hst := hc.sprouts.grown.stacks_le
    simp only [forest, size_blocks_bare, size_allStacks_bare] at hbl hst
    refine steady_hanging hs ?_ (by simpa using hbl) (by simp; omega) hst
    have hso := hF.hold hc.sprouts
    rw [size_allStacks_bare] at hso
    rw [bare_addStack]
    exact hso
  by_cases hbo : e.forest.store.HasBody b
  · refine .inr ⟨hbo, hse, ?_⟩
    have hsh := Share.block hc hbo
    rw [size_allStacks_bare, ← bare_addStack] at hsh
    exact hsh
  · exact .inl fun _ => ⟨hse, .single (change_hold_copy hF hb hbo)⟩

theorem share_copyStack (hs : e.core.Steady) (hm : m.stack ∈ e.workspace) :
    let e' := (e.withCursor (e.store.copyStack m.stack).2 (e.store.copyStack m.stack).1).hanging grip
    e'.core.Steady ∧ Share e.forest e'.forest := by
  have hsh : Share e.forest ⟨(e.store.copyStack m.stack).2.bare, e.workspace,
      some ⟨e.store.allStacks.size⟩⟩ := by
    rw [bare_copyStack, ← size_allStacks_forest]
    exact .stack hm
  exact ⟨steady_hanging hs (hs.forest.share hsh) le_rfl (by simp [Store.copyStack]) le_rfl, hsh⟩

/-! ## Mouse buttons going down -/

theorem literal_value_varName {v : Value} (hv : v.Literal) : (MenuOption.varName v).value.Literal := by
  show (if v.truth then v else .text "variable...").Literal
  split
  · exact hv
  · trivial

theorem chooseOption_eq_ok (hs : e.core.Steady) (hm : e.menu = some m)
    (h : chooseOption m e = .ok u e') :
    Moves saved e e' ∨ (itemAt? e.options e.selected = some .duplicate ∧ m.Shares e.forest) ∧
      e'.core.Steady ∧ Share e.forest e'.forest := by
  have hfi : m.Fits e.forest := hs.menu m hm
  cases chooseOption_cases h with
  | nothing => exact .inl (refl e)
  | removeStack _ hd => exact .inl (.trans (.removeStack hm) ((moves_redraw _).ok hd))
  | removeBlock hpa ht hd =>
    have hf := (menuForStack_eq_ok hfi.toMarks hpa).not.1 Bool.false_ne_true
    exact .inl (.trans (.removeBlock (fun _ => hfi.stack_lt)
      fun _ => hfi.toMarks.ne_zero hf ht) ((moves_redraw _).ok hd))
  | clear _ ha hd =>
    exact .inl (.trans ((moves_assign _ _ (v := .none) trivial).ok ha)
      ((moves_redraw _).ok hd))
  | copyStack ho hw =>
    have hf := (menuForStack_eq_ok hfi.toMarks hw).1 rfl
    exact .inr ⟨⟨ho, .inl hf⟩, share_copyStack hs hf.2⟩
  | copyBlock ho hb =>
    rcases hb with ⟨rfl, hr⟩ | ⟨i, hsl⟩
    · refine (moves_or_share_withCopy hs hfi.block_lt).imp_right fun hsh => ?_
      exact ⟨⟨ho, .inr ⟨hr, hsh.1⟩⟩, hsh.2⟩
    · obtain ⟨c, -, hlt, hr, -⟩ := hs.forest.store.fits_slot? ((slot?_forest ..).trans hsl)
      refine (moves_or_share_withCopy hs hlt).imp_right fun hsh => ?_
      exact absurd hsh.1 (hs.forest.store.not_hasBody hr)
  | name ho _ ha hd =>
    have hl := literal_value_varName (hs.options _ (mem_of_itemAt? ho))
    exact .inl (.trans ((moves_assign _ _ hl).ok ha) ((moves_redraw _).ok hd))
  | create _ hp => exact .inl hp.moves
  | remove _ _ _ hp => exact .inl hp.moves

/-- The marked line of the open menu duplicates a whole stack or a block with a filled body. -/
def Editor.SharesBlocks (e : Editor) : Prop :=
  ∃ m, e.menu = some m ∧ e.selected ≠ -1 ∧ itemAt? e.options e.selected = some .duplicate ∧
    m.Shares e.forest

theorem moves_closeMenu (hc : e'.core = { e.core with menu := none }) : Moves saved e e' := by
  intro hs
  have hF : e'.forest = e.forest := congrArg Core.forest hc
  rw [hc, hF]
  refine ⟨{ hs with menu := fun m hm => ?_ }, .refl⟩
  cases hm

/-- What a mouse button that goes down does when nothing is chosen from a menu. -/
inductive Pressing (button : Int) : Edit Unit → Prop where
  | nothing : Pressing button (pure ())
  | pan : Pressing button (modify fun e => { e with panning := true })
  | click (hbutton : button = 1) : Pressing button clickWorkspace
  | rightClick : Pressing button rightClickWorkspace
  | palette (hbutton : button = 1) : Pressing button clickPalette

/-- A button goes down beside the lines of a menu. -/
def Edit.press (button : Int) (e : Editor) : Edit Unit := do
  set e.shut
  if e.mouseInWorkspace then
    if button = 2 then modify fun e => { e with panning := true }
    else if button = 1 then clickWorkspace
    else if button = 3 then rightClickWorkspace
  else if button = 1 then clickPalette

theorem handleDown_choose (he : e.excuseDown = false) (hm : e.menu = some m)
    (hs : e.selected ≠ -1) : handleDown button e = (do chooseOption m; modify shut) e := by
  unfold handleDown
  rw [get_bind, if_neg (by simp [he]), hm, decide_eq_true hs]

theorem handleDown_press (he : e.excuseDown = false) (hc : e.menu = none ∨ e.selected = -1) :
    handleDown button e = press button e e := by
  unfold handleDown
  rw [get_bind, if_neg (by simp [he])]
  rcases hm : e.menu with _ | m
  · rfl
  · rw [decide_eq_false (not_not.2 (hc.resolve_left (by simp [hm])))]
    rfl

/-- A mouse button goes down: it is passed over, chooses from the open menu, or closes the menu and
goes to what is under the mouse. -/
theorem handleDown_cases (h : handleDown button e = .ok u e') :
    e.excuseDown = true ∧ e' = { e with excuseDown := false } ∨
      (e.excuseDown = false ∧ ∃ m e1, e.menu = some m ∧ e.selected ≠ -1 ∧
        chooseOption m e = .ok () e1 ∧ e' = e1.shut) ∨
      ∃ act, Pressing button act ∧ act e.shut = .ok () e' := by
  cases he : e.excuseDown with
  | true =>
    unfold handleDown at h
    rw [get_bind, if_pos he] at h
    exact .inl ⟨rfl, (set_eq_ok.1 h).symm⟩
  | false =>
  refine .inr ?_
  by_cases hc : ∃ m, e.menu = some m ∧ e.selected ≠ -1
  · obtain ⟨m, hm, hs⟩ := hc
    rw [handleDown_choose he hm hs] at h
    obtain ⟨_, e1, h1, h⟩ := bind_eq_ok.1 h
    exact .inl ⟨rfl, m, e1, hm, hs, h1, (modify_eq_ok.1 h).symm⟩
  · have ho : press button e e = .ok u e' := by
      rw [← h, handleDown_press he]
      rcases hm : e.menu with _ | m
      · exact .inl rfl
      · exact .inr (not_not.1 fun hs => hc ⟨m, hm, hs⟩)
    unfold press at ho
    rw [set_bind] at ho
    refine .inr ?_
    split at ho
    · split at ho
      · exact ⟨_, .pan, ho⟩
      · split at ho <;> rename_i hon
        · exact ⟨_, .click hon, ho⟩
        · split at ho
          · exact ⟨_, .rightClick, ho⟩
          · exact ⟨_, .nothing, ho⟩
    · split at ho <;> rename_i hon
      · exact ⟨_, .palette hon, ho⟩
      · exact ⟨_, .nothing, ho⟩

theorem handleDown_eq_ok (hs : e.core.Steady) (h : handleDown button e = .ok u e') :
    Moves saved e e' ∨
      (e.excuseDown = false ∧ e.SharesBlocks) ∧ e'.core.Steady ∧ Share e.forest e'.forest := by
  rcases handleDown_cases h with
    ⟨-, rfl⟩ | ⟨he, m, e1, hm, hse, h1, rfl⟩ | ⟨act, ha, h⟩
  · exact .inl (.of_core rfl)
  · have hc : Moves saved e1 e1.shut := moves_closeMenu rfl
    obtain (hmo : Moves saved e e1) | ⟨hsh, hst, hsa⟩ := chooseOption_eq_ok hs hm h1
    · exact .inl (.trans hmo hc)
    · exact .inr ⟨⟨he, m, hm, hse, hsh⟩, (hc hst).1, hsa⟩
  · have hc : Moves saved e e.shut := moves_closeMenu rfl
    refine .inl (.trans hc ?_)
    cases ha with
    | nothing => exact (pure_eq_ok.1 h).2 ▸ refl _
    | pan => exact .of_core (modify_eq_ok.1 h ▸ rfl)
    | click => exact .clickWorkspace rfl h
    | rightClick => exact .rightClickWorkspace h
    | palette => exact .clickPalette rfl h

end BlockStudio
