import BlockStudio.Proofs.SureUpdate

/-!
# What menus, dialogs and edited slots refer to

The edited slot, an open menu and an open dialog name blocks, slots and stacks that were there when
they came up.  `Editor.Aware` says that these are there still: the edited slot is one to type into, the
menu stands for a block of its stack, a reporter in its slot or a slot for a name, its lines are those
that its target asks for, and a question about a variable is asked for a name in a slot for names.

Most steps leave these tools alone and lose nothing that they refer to.  `Works` says the first and
`Store.Spares` the second.
-/

namespace BlockStudio

open Forest

variable {α : Type} {e e1 e' : Editor} {s : Store} {b : BlockId} {i : Nat} {u : Unit}

/-! ## Nothing is lost -/

namespace Store

variable {s s' s'' : Store}

/-- No row gets shorter, and where a reporter was there is one. -/
structure Spares (s s' : Store) : Prop where
  stacks_le : s.allStacks.size ≤ s'.allStacks.size
  row_le : ∀ t : StackId, t.index < s.allStacks.size →
    (s.blocksOf t).length ≤ (s'.blocksOf t).length
  reporter : ∀ b i c, s.slot? b i = some (.block c) → ∃ c', s'.slot? b i = some (.block c')

theorem Spares.refl (s : Store) : Spares s s := ⟨le_rfl, fun _ _ => le_rfl, fun _ _ c h => ⟨c, h⟩⟩

theorem Spares.trans (h : Spares s s') (h' : Spares s' s'') : Spares s s'' where
  stacks_le := h.stacks_le.trans h'.stacks_le
  row_le t ht := (h.row_le t ht).trans (h'.row_le t (ht.trans_le h.stacks_le))
  reporter b i c hc := by
    obtain ⟨c', hc'⟩ := h.reporter b i c hc
    exact h'.reporter b i c' hc'

theorem spares_of_bare (h : s'.bare = s.bare) : Spares s s' where
  stacks_le := by rw [← size_allStacks_bare s, ← h, size_allStacks_bare]
  row_le t _ := by rw [← blocksOf_bare s, ← h, blocksOf_bare]
  reporter b i c hc := ⟨c, by rwa [← slot?_bare, h, slot?_bare]⟩

/-- What is recalled is not lost: no body is opened where a reporter stands. -/
theorem Recalls.spares (h : Recalls s s') (hs : s.bare.Sound) : Spares s s' where
  stacks_le := h.stacks_le
  row_le t ht := by
    have hr := hs.row_lt t (by rwa [size_allStacks_bare])
    rw [h.blocksOf_eq ⟨ht, by simpa using hr⟩]
  reporter b i c hc := by
    rcases h.slot b i (lt_of_slot? hc) with heq | ⟨⟨comp, hco, hk⟩, -, -⟩
    · exact ⟨c, heq.trans hc⟩
    · have hf := hs.fits b i comp (.block c) (by rwa [definitionOf_bare]) (by rwa [slot?_bare])
      exact absurd hk (kind_of_fits hf.2.2).1

theorem Grown.spares (h : Grown s s') (hs : s.bare.Sound) : Spares s s' := h.recalls.spares hs

/-- Blocks are put into a row. -/
theorem spares_editRow (s : Store) (t : StackId) {f : List BlockId → List BlockId}
    (hf : ∀ row, row.length ≤ (f row).length) : Spares s (s.editRow t f) where
  stacks_le := le_rfl
  row_le u _ := by
    rw [blocksOf, blocksOf, stack_editRow, row_editRow]
    split
    · exact hf _
    · exact le_rfl
  reporter _ _ c hc := ⟨c, hc⟩

/-- A reporter is put into a slot. -/
theorem spares_setReporter (s : Store) (b : BlockId) (i : Nat) (c : BlockId) :
    Spares s (s.setValue b i (.block c)) where
  stacks_le := le_rfl
  row_le _ _ := by rw [blocksOf_setValue]
  reporter x j y hy := by
    by_cases hxj : x = b ∧ j = i
    · obtain ⟨rfl, rfl⟩ := hxj
      exact ⟨c, slot?_setValue_self hy⟩
    · exact ⟨y, by rwa [slot?_setValue_of_ne _ hxj]⟩

end Store

/-! ## Steps that leave the tools alone -/

/-- What keys and clicks are meant for. -/
def Editor.tools (e : Editor) : Bool × Option Spot × Option Menu × List MenuOption ×
    List (Size × Rect Num) × Option (Dialog × Purpose) :=
  (e.editing, e.edited, e.menu, e.options, e.optionRects, e.dialog)

/-- What is in order stays so, and the tools stay. -/
structure Works (e e' : Editor) : Prop where
  abides : Abides e e'
  tools_eq : e'.tools = e.tools

instance : IsPreorder Editor Works where
  refl e := ⟨refl e, rfl⟩
  trans _ _ _ h h' := ⟨trans_of Abides h.abides h'.abides, h'.tools_eq.trans h.tools_eq⟩

theorem Works.of_parts (hs : e'.store = e.store) (hw : e'.workspace = e.workspace)
    (he : e'.eases = e.eases) (ht : e'.tools = e.tools) : Works e e' :=
  ⟨.of_parts hs hw he, ht⟩

protected theorem Works.withStore (h : e.store.Lasts s) : Works e (e.withStore s) :=
  ⟨(roams_withStore h).1, rfl⟩

theorem Displays.works {m : Edit α} (h : Displays m) (ha : Keeps Abides m) : Keeps Works m :=
  ⟨fun e => ⟨ha.run e, (congrArg Editor.tools (h.run e) :)⟩⟩

theorem works_redraw (i : Int) : Keeps Works (Edit.redraw i) :=
  (displays_redraw i).works (abides_redraw i)

/-- Filling a slot that is not for bodies. -/
theorem works_assign {v : Value}
    (hk : ∀ c, (e.store.definitionOf b).inputs[i]? = some c → c.kind ≠ .statement)
    (h : Edit.assign b i v e = .ok u e') : Works e e' := by
  obtain ⟨-, rfl⟩ := assign_eq_ok.1 h
  exact .withStore (Store.lasts_setValue fun _ c hc hs => absurd hs (hk c hc))

theorem works_clear (h : Edit.assign b i .none e = .ok u e') : Works e e' := by
  obtain ⟨-, rfl⟩ := assign_eq_ok.1 h
  exact .withStore (Store.lasts_setValue fun _ _ _ _ => .inl rfl)

theorem works_eraseStack (k : Nat) : Works e
    { e with workspace := e.workspace.eraseIdx k, renderings := e.renderings.eraseIdx k } :=
  ⟨⟨.refl _, rfl, fun _ ht => .inl (List.mem_of_mem_eraseIdx ht)⟩, rfl⟩

theorem works_withCursor {t : StackId} (h : e.store.Lasts s) : Works e (e.withCursor s t) := by
  have hc : Works (e.withStore s) (e.withCursor s t) := .of_parts rfl rfl rfl rfl
  exact trans_of Works (.withStore h) hc

theorem works_withCopy (b : BlockId) : Works e (e.withCopy b) :=
  works_withCursor ((Store.lasts_copyBlock ..).trans (Store.lasts_addStack ..))

section Picking

variable {r : Rendering} {detach : Edit Unit} {i : Nat} {id : BlockId} {p : Point}

theorem works_pickBlocks (hd : ∀ e u e', detach e = .ok u e' → Works e e')
    (h : Edit.pickBlocks r detach i id e = .ok p e') : Works e e' := by
  rcases pickBlocks_cases h with ⟨-, h⟩ | ⟨-, rfl⟩
  · exact trans_of Works (works_withCursor (Store.lasts_addStack ..)) (hd _ _ _ h)
  · exact works_withCursor ((Store.lasts_addStack ..).trans (Store.lasts_replaceRow ..))

theorem works_pickReporter {slot : Nat} {path : List Nat}
    (h : Edit.pickReporter r id slot path e = .ok p e') : Works e e' := by
  obtain ⟨_, _, chosen, -, -, ha⟩ := pickReporter_cases h
  exact trans_of Works (works_withCopy chosen) (works_clear ha)

theorem works_takeGrip {i : Int} {p : Point} (h : Edit.takeGrip i p e = .ok u e') : Works e e' := by
  obtain ⟨e1, grip, hd, rfl⟩ := takeGrip_cases h
  have hg : Works e1 { e1 with grip } := .of_parts rfl rfl rfl rfl
  exact trans_of Works ((works_redraw i).ok hd) hg

theorem works_renderBody (spot : Spot) : Keeps Works (Edit.renderBody spot) := by
  refine .bind (reads_slotValue _ _).keeps fun v => ?_
  cases v with
  | stack t => exact (pictures_render t).displays.works (abides_render t)
  | _ => exact .throw _

end Picking

/-! ## What the tools refer to -/

/-- What a menu was opened for is there. -/
structure Menu.Known (m : Menu) (s : Store) : Prop where
  index : 0 ≤ m.stackIndex
  located : s.Located m.stack
  target : match m.target with
    | .block i => i < (s.blocksOf m.stack).length
    | .reporter slot => ∃ b, s.slot? m.block slot = some (.block b)
    | .varSlot spot => s.IsName spot.block spot.slot

/-- What a dialog asks about is there, and no menu stays open while it may go. -/
def Editor.Awaits (e : Editor) : Purpose → Prop
  | .createVariable spot _ => e.store.IsName spot.block spot.slot ∧ e.menu = none
  | .renameVariable name | .deleteVariable name => name.Literal ∧ e.menu = none
  | .save | .load | .close => True

/-- What is edited, chosen or asked is there. -/
structure Editor.Aware (e : Editor) : Prop where
  edited : ∀ spot, e.edited = some spot →
    ∃ c, (e.store.definitionOf spot.block).inputs[spot.slot]? = some c ∧ c.kind ≠ .statement
  menu : ∀ m, e.menu = some m → m.Known e.store
  lines : ∀ m, e.menu = some m → e.editing = false ∧
    (∃ globals, e.options = Edit.optionsFor globals m.target) ∧
    e.optionRects.length = e.options.length
  asked : ∀ d purpose, e.dialog = some (d, purpose) → e.Awaits purpose

theorem Store.Lasts.isName {s' : Store} (h : s.Lasts s') (hn : s.IsName b i) : s'.IsName b i := by
  obtain ⟨c, hc, hk⟩ := hn
  exact ⟨c, by rwa [h.definition_eq b (lt_of_inputs hc)], hk⟩

theorem Menu.Known.mono {m : Menu} {s' : Store} (h : m.Known s) (hla : s.Lasts s')
    (hs : s.Spares s') : m.Known s' := by
  obtain ⟨hi, hl, ht⟩ := h
  refine ⟨hi, hla.located _ hl, ?_⟩
  cases hm : m.target with
  | block i =>
    rw [hm] at ht
    exact ht.trans_le (hs.row_le _ hl.lt)
  | reporter slot =>
    rw [hm] at ht
    obtain ⟨b, hb⟩ := ht
    exact hs.reporter _ _ b hb
  | varSlot spot =>
    rw [hm] at ht
    exact hla.isName ht

namespace Editor.Aware

/-- The edited slot after a step that leaves it alone. -/
theorem edited_of_lasts (h : e.Aware) (hl : e.store.Lasts e'.store) (he : e'.edited = e.edited)
    (spot : Spot) (hs : e'.edited = some spot) :
    ∃ c, (e'.store.definitionOf spot.block).inputs[spot.slot]? = some c ∧ c.kind ≠ .statement := by
  obtain ⟨c, hc, hk⟩ := h.edited spot (he ▸ hs)
  exact ⟨c, by rwa [hl.definition_eq _ (Store.lt_of_inputs hc)], hk⟩

/-- A step that leaves the tools alone and loses nothing that a menu stands for. -/
theorem mono (h : e.Aware) (hl : e.store.Lasts e'.store) (ht : e'.tools = e.tools)
    (hs : e.menu = none ∨ e.store.Spares e'.store) : e'.Aware := by
  simp only [Editor.tools, Prod.mk.injEq] at ht
  obtain ⟨he, hed, hme, ho, hr, hdi⟩ := ht
  refine ⟨h.edited_of_lasts hl hed, fun m hm => ?_, fun m hm => ?_, fun d purpose hd => ?_⟩
  · rw [hme] at hm
    refine (h.menu m hm).mono hl (hs.resolve_left fun hn => ?_)
    cases hn.symm.trans hm
  · rw [he, ho, hr]
    exact h.lines m (hme ▸ hm)
  · have ha := h.asked d purpose (hdi ▸ hd)
    cases purpose with
    | createVariable spot i => exact ⟨hl.isName ha.1, hme.trans ha.2⟩
    | renameVariable name | deleteVariable name => exact ⟨ha.1, hme.trans ha.2⟩
    | save | load | close => trivial

theorem works (h : e.Aware) (hw : Works e e') (hs : e.menu = none ∨ e.store.Spares e'.store) :
    e'.Aware :=
  h.mono hw.1.lasts hw.2 hs

theorem congr (h : e.Aware) (hs : e'.store = e.store) (ht : e'.tools = e.tools) : e'.Aware :=
  h.mono (hs ▸ .refl e.store) ht (.inr (hs ▸ .refl e.store))

end Editor.Aware

end BlockStudio
