import BlockStudio.Proofs.Lasting

/-!
# Where the dragged stack would be joined

While a stack is dragged, every update looks for a candidate among the stacks of the workspace and
the bodies below them, and gives each unfilled body on the way an empty stack.  `Unfolds` is what the
search does to the forest.  `Aimed` is what a candidate promises: the dragged stack can be joined at
an end of a stack that is reached from the workspace, or fits a slot.  `Seeks` is what one part of the
search does to the editor, and `Editor.Hunting` is what it relies on so as not to fail.
-/

namespace BlockStudio

open Forest Store Edit Editor

variable {α β : Type} {saved : Forest → Prop} {F F' F'' : Forest} {c : Candidate} {e e' : Editor}
  {t u : StackId} {v : Value} {b : BlockId} {s : Store} {p : Fault → Prop}

/-! ## Opening bodies -/

/-- Unfilled bodies got empty stacks; everything that was there stays. -/
structure Unfolds (saved : Forest → Prop) (F F' : Forest) : Prop where
  changes : Changes saved F F'
  workspace_eq : F'.workspace = F.workspace
  cursor_eq : F'.cursor = F.cursor
  blocks_eq : F'.store.blocks.size = F.store.blocks.size
  stacks_le : F.store.allStacks.size ≤ F'.store.allStacks.size
  definition_eq : ∀ b, F'.store.definitionOf b = F.store.definitionOf b
  blocksOf_eq : ∀ t : StackId, t.index < F.store.allStacks.size →
    F'.store.blocksOf t = F.store.blocksOf t
  reached : ∀ v, v.IsNode → F.Reaches v → F'.Reaches v

theorem Unfolds.refl (F : Forest) : Unfolds saved F F :=
  ⟨.refl, rfl, rfl, rfl, le_rfl, fun _ => rfl, fun _ _ => rfl, fun _ _ h => h⟩

theorem Unfolds.trans (h : Unfolds saved F F') (h' : Unfolds saved F' F'') : Unfolds saved F F'' where
  changes := h.changes.trans h'.changes
  workspace_eq := h'.workspace_eq.trans h.workspace_eq
  cursor_eq := h'.cursor_eq.trans h.cursor_eq
  blocks_eq := h'.blocks_eq.trans h.blocks_eq
  stacks_le := h.stacks_le.trans h'.stacks_le
  definition_eq b := (h'.definition_eq b).trans (h.definition_eq b)
  blocksOf_eq t ht := (h'.blocksOf_eq t (ht.trans_le h.stacks_le)).trans (h.blocksOf_eq t ht)
  reached v hv hr := h'.reached v hv (h.reached v hv hr)

theorem Unfolds.types_eq (h : Unfolds saved F F') (ht : t.index < F.store.allStacks.size) :
    F'.store.types t = F.store.types t := by
  simp only [types, h.blocksOf_eq t ht, h.definition_eq]

section OpenBody

variable {b : BlockId} {i : Nat} {comp : Component}

theorem bare_withBody (s : Store) : (withBody s b i).bare = withBody s.bare b i := by
  simp [withBody]

/-- Opening an unfilled body loses nothing that could be reached. -/
theorem reached_withBody (hF : F.Sound) (hc : (F.store.definitionOf b).inputs[i]? = some comp)
    (hk : comp.kind = .statement) (hs : ∀ t, F.store.slot? b i ≠ some (.stack t)) (hv : v.IsNode)
    (h : F.Reaches v) : Reached (withBody F.store b i) F.workspace v := by
  induction h with
  | top ht => exact .top ht
  | @row t x h hx ih =>
    refine .row (ih trivial) ?_
    rwa [blocksOf_withBody_of_lt hF.store (hF.reached_lt h)]
  | @slot x j v h hx ih =>
    refine .slot (i := j) (ih trivial) ?_
    rw [← hx]
    refine slot?_setValue_of_ne _ ?_
    rintro ⟨rfl, rfl⟩
    -- the slot is one for bodies, so what stood in it was neither a block nor a stack
    have hf := hF.store.fits _ _ _ _ hc hx
    cases v with
    | block c => exact absurd hk (kind_of_fits hf.2.2).1
    | stack t => exact hs t hx
    | _ => exact hv

theorem unfolds_withBody (hF : F.Sound) (hc : (F.store.definitionOf b).inputs[i]? = some comp)
    (hk : comp.kind = .statement) (hs : ∀ t, F.store.slot? b i ≠ some (.stack t)) :
    Unfolds saved F ⟨withBody F.store b i, F.workspace, F.cursor⟩ where
  changes := .single (.openBody hc hk)
  workspace_eq := rfl
  cursor_eq := rfl
  blocks_eq := by simp [withBody]
  stacks_le := by simp [withBody, setValue, modifyBlock]
  definition_eq x := by simp [withBody, definitionOf]
  blocksOf_eq t ht := blocksOf_withBody_of_lt hF.store ht
  reached v hv h := reached_withBody hF hc hk hs hv h

end OpenBody

/-! ## Candidates -/

/-- How many blocks of the stack stay above what is joined at an end. -/
def Candidate.above (c : Candidate) : Nat :=
  match c.joint, c.blockIndex with
  | .after, some k => k + 1
  | .before, some k => k
  | _, _ => 0

/-- The dragged stack can be joined where the candidate says. -/
inductive Aimed (F : Forest) (c : Candidate) : Prop where
  /-- At an end of a stack. -/
  | ends {u : StackId} (hjoint : c.joint ≠ .value) (hu : F.cursor = some u)
    (hreached : F.Reaches (.stack c.stack))
    (hjoins : Joins (F.store.types c.stack) (F.store.types u) c.above)
    (hempty : c.blockIndex = none → F.store.blocksOf c.stack = [])
  /-- Its first block in a slot. -/
  | slot {u : StackId} {first b : BlockId} {i : Nat} {comp : Component} (hjoint : c.joint = .value)
    (hu : F.cursor = some u) (hfirst : (F.store.blocksOf u).head? = some first)
    (hreporter : (F.store.definitionOf first).blockType = .reporter) (hb : c.block = some b)
    (hi : c.slot = some i) (hlt : b.index < F.store.blocks.size)
    (hcomp : (F.store.definitionOf b).inputs[i]? = some comp)
    (hfits : comp.kind.fits (F.store.definitionOf first).outputType = true)

theorem Aimed.mono (hF : F.Sound) (h : Unfolds saved F F') (hc : Aimed F c) : Aimed F' c := by
  cases hc with
  | @ends u hj hu hre hjo he =>
    have hul := hF.root_lt u (mem_roots.2 (.inr hu))
    have ht := hF.reached_lt hre
    refine .ends hj (h.cursor_eq.trans hu) (h.reached _ trivial hre) ?_ ?_
    · rwa [h.types_eq ht, h.types_eq hul]
    · rwa [h.blocksOf_eq _ ht]
  | @slot u first b i comp hj hu hf hr hb hi hlt hco hfi =>
    have hul := hF.root_lt u (mem_roots.2 (.inr hu))
    rw [← h.blocksOf_eq u hul] at hf
    rw [← h.definition_eq] at hr hco hfi
    rw [← h.blocks_eq] at hlt
    exact .slot hj (h.cursor_eq.trans hu) hf hr hb hi hlt hco hfi

/-- The candidate of the editor, if there is one, is aimed and belongs to a stack of the workspace. -/
def Editor.Aiming (e : Editor) : Prop :=
  ∀ c, e.candidate = some c → c.stackIndex < e.workspace.length ∧ Aimed e.forest c

/-- What keys and buttons go to: the edited slot or the open dialog. -/
def Editor.focus (e : Editor) : Bool × Option Spot × Option (Dialog × Purpose) :=
  (e.editing, e.edited, e.dialog)

/-- The declared variables, and the open menu with its lines. -/
def Editor.desk (e : Editor) : List Value × Option Menu × List MenuOption :=
  (e.globals, e.menu, e.options)

/-- The editor without what the search changes. -/
def Editor.apart (e : Editor) : Editor :=
  { e with canvas := { store := .empty }, candidate := none }

/-- One part of the search: the editor stays steady, bodies were opened, and an aimed candidate was
kept or replaced by another. -/
structure Seeks (saved : Forest → Prop) (e e' : Editor) : Prop where
  steady : e.core.Steady → e'.core.Steady
  unfolds : e.core.Steady → Unfolds saved e.forest e'.forest
  glances : e.core.Steady → Glances e e'
  lasts : e.store.Lasts e'.store
  apart_eq : e'.apart = e.apart
  aiming : e.core.Steady → e.Aiming → e'.Aiming

instance (saved : Forest → Prop) : IsPreorder Editor (Seeks saved) where
  refl e := ⟨id, fun _ => .refl _, fun _ => refl e, .refl _, rfl, fun _ => id⟩
  trans _ _ _ h h' := {
    steady := fun hs => h'.steady (h.steady hs)
    unfolds := fun hs => (h.unfolds hs).trans (h'.unfolds (h.steady hs))
    glances := fun hs => trans_of Glances (h.glances hs) (h'.glances (h.steady hs))
    lasts := h.lasts.trans h'.lasts
    apart_eq := h'.apart_eq.trans h.apart_eq
    aiming := fun hs ha => h'.aiming (h.steady hs) (h.aiming hs ha) }

theorem Seeks.focus_eq (h : Seeks saved e e') : e'.focus = e.focus :=
  (congrArg focus h.apart_eq :)

theorem seeks_propose (hi : c.stackIndex < e.workspace.length) (hc : Aimed e.forest c) :
    Seeks saved e (endState (propose c e)) := by
  have hg : Glances e (endState (propose c e)) := .of_stage rfl rfl rfl rfl rfl
  refine ⟨id, fun _ => .refl _, fun _ => hg, .refl _, rfl, fun _ _ c' hc' => ?_⟩
  cases hc'
  exact ⟨hi, hc⟩

theorem seeks_withStore (hr : e.store.Recalls s)
    (hp : ∀ t ∈ e.workspace, t.index < e.store.allStacks.size →
      (s.stack t).position = (e.store.stack t).position) (hl : e.store.Lasts s)
    (h : e.core.Steady → Unfolds saved e.forest ⟨s.bare, e.workspace, e.cursor⟩) :
    Seeks saved e (e.withStore s) where
  steady hs := (Moves.withStore hr.blocks_le hr.stacks_le fun hs => (h hs).changes) hs |>.1
  unfolds := h
  glances _ := ⟨rfl, rfl, rfl, rfl, hr, hp⟩
  lasts := hl
  apart_eq := rfl
  aiming hs ha c hc := ⟨(ha c hc).1, (ha c hc).2.mono hs.forest (h hs)⟩

/-- A body is told where it is. -/
theorem seeks_setPosition (ht : t ∉ e.workspace) (p : Point) :
    Seeks saved e (e.withStore (e.store.setPosition t p.asPosition)) := by
  have hg := glances_setPosition ht p.asPosition
  refine seeks_withStore hg.recalls hg.position_eq (lasts_setPosition ..) fun _ => ?_
  rw [bare_setPosition]
  exact .refl _

/-- A new body that is told where it is can stand in its slot. -/
theorem Store.lasts_withBody (s : Store) (b : BlockId) (i : Nat) (p : Point) :
    s.Lasts ((withBody s b i).setPosition ⟨s.allStacks.size⟩ p.asPosition) := by
  have hn : (⟨s.allStacks.size⟩ : StackId).index < (s.addStack [] none).2.allStacks.size := by
    simp [addStack]
  have hp := (lasts_addStack s [] none).trans
    (lasts_setPosition (s.addStack [] none).2 ⟨s.allStacks.size⟩ p)
  refine hp.trans (lasts_setValue fun _ _ _ _ => .inr ⟨_, rfl, ?_⟩)
  exact located_setPosition_self hn p

/-- A slot for a body that holds no stack gets one, which is told where it is. -/
theorem seeks_openBody {i : Nat} {comp : Component}
    (hc : (e.store.definitionOf b).inputs[i]? = some comp) (hk : comp.kind = .statement)
    (hv : e.store.slot? b i = some v) (hne : ∀ t, v ≠ .stack t) (p : Point) :
    Seeks saved e (e.withStore
      ((withBody e.store b i).setPosition ⟨e.store.allStacks.size⟩ p.asPosition)) := by
  have hto : (withBody e.store b i).Recalls
      ((withBody e.store b i).setPosition ⟨e.store.allStacks.size⟩ p.asPosition) :=
    (grown_of_bare_eq (bare_setPosition ..)).recalls
  refine seeks_withStore ((recalls_withBody hc hk hv hne).trans hto) (fun t _ ht => ?_)
    (lasts_withBody ..) fun hs => ?_
  · have hold : t ≠ ⟨e.store.allStacks.size⟩ := fun h => absurd (h ▸ ht) (lt_irrefl _)
    rw [stack_setPosition_of_ne hold]
    exact (retains_addStack e.store [] none).position_eq t ht
  · rw [bare_setPosition, bare_withBody]
    refine unfolds_withBody hs.forest ?_ hk fun t ht => ?_
    · exact (congrArg (·.inputs[i]?) (definitionOf_forest e b)).trans hc
    · exact hne t (Option.some.inj (hv.symm.trans ((slot?_forest e b i).symm.trans ht)))

/-! ## The dragged stack -/

theorem reads_heldFirst : Reads heldFirst := by
  unfold heldFirst
  refine .bind .get fun e => ?_
  split
  · exact .throw _
  · split
    · exact .throw _
    · exact .pure _

theorem reads_heldLast : Reads heldLast := by
  unfold heldLast
  refine .bind .get fun e => ?_
  split
  · exact .throw _
  · split
    · exact .throw _
    · exact .pure _

theorem reads_heldSize : Reads heldSize := by
  unfold heldSize
  refine .bind .get fun e => ?_
  split
  · exact .pure _
  · exact .throw _

theorem reads_heldPlace : Reads heldPlace :=
  .bind .get fun _ => .bind (reads_ofExcept _) fun _ => reads_ofExcept _

theorem reads_joinLine (x y : Num) : Reads (joinLine x y) :=
  .bind reads_heldFirst fun _ => .pure _

theorem heldFirst_eq_ok {b : Block} (h : heldFirst e = .ok b e') :
    ∃ u first, e.forest.cursor = some u ∧ (e.forest.store.blocksOf u).head? = some first ∧
      b.definition = e.forest.store.definitionOf first := by
  unfold heldFirst at h
  rw [get_bind] at h
  rcases hu : e.cursor with _ | u <;> simp only [hu] at h
  · exact absurd h throw_ne_ok
  · rcases hr : e.store.blocksOf u with _ | ⟨first, rest⟩ <;> simp only [hr] at h
    · exact absurd h throw_ne_ok
    · obtain ⟨rfl, -⟩ := pure_eq_ok.1 h
      refine ⟨u, first, hu, ?_, ?_⟩
      · simp [forest, hr]
      · simp [forest, definitionOf]

theorem head?_types_of_heldFirst {b : Block} (h : heldFirst e = .ok b e')
    (hu : e.forest.cursor = some u) : (e.forest.store.types u).head? = some b.definition.blockType := by
  obtain ⟨u', first, hu', hf, hd⟩ := heldFirst_eq_ok h
  cases hu.symm.trans hu'
  rw [types, List.head?_map, hf, hd]
  rfl

theorem getLast?_types_of_heldLast {b : Block} (h : heldLast e = .ok b e')
    (hu : e.forest.cursor = some u) :
    (e.forest.store.types u).getLast? = some b.definition.blockType := by
  unfold heldLast at h
  have hu' : e.cursor = some u := hu
  rw [get_bind] at h
  simp only [hu'] at h
  rcases hl : (e.store.blocksOf u).getLast? with _ | last <;> simp only [hl] at h
  · exact absurd h throw_ne_ok
  · obtain ⟨rfl, -⟩ := pure_eq_ok.1 h
    simp [types, List.getLast?_map, forest, hl, definitionOf]

/-! ## What the search relies on -/

/-- What a recalled store reaches was reached before, but for new bodies, which are empty. -/
def Forest.Recalled (F : Forest) (s : Store) : Value → Prop
  | .block b => F.Reaches (.block b)
  | .stack t => F.Reaches (.stack t) ∨ s.blocksOf t = []
  | _ => True

theorem Store.Recalls.recalled (h : F.store.Recalls s) (hF : F.Sound) (hv : Reached s F.workspace v) :
    F.Recalled s v := by
  induction hv with
  | top ht => exact .inl (.top ht)
  | @row t b _ hb ih =>
    rcases ih with hr | he
    · have ht := hF.reached_lt hr
      rw [h.blocksOf_eq ⟨ht, hF.store.row_lt t ht⟩] at hb
      exact hr.row hb
    · rw [he] at hb
      exact absurd hb List.not_mem_nil
  | @slot b i v _ hv ih =>
    have hb : F.Reaches (.block b) := ih
    rcases h.slot b i (hb.block_lt hF.store) with hs | ho
    · have hr := hb.slot (hs.symm.trans hv)
      cases v with
      | block _ => exact hr
      | stack _ => exact .inl hr
      | _ => trivial
    · obtain ⟨t, ht, -, he⟩ := ho.filled
      cases ht.symm.trans hv
      exact .inr he

theorem reached_block_of_recalls (hF : e.forest.Sound) (hw : e'.workspace = e.workspace)
    (h : e.store.Recalls e'.store) (hb : e'.forest.Reaches (.block b)) :
    e.forest.Reaches (.block b) := by
  have hr : e.store.bare.Recalls e'.store.bare :=
    ((grown_of_bare_eq (by simp)).recalls.trans h).trans
      (grown_of_bare_eq (by simp)).recalls
  rw [Reaches, show e'.forest.workspace = e.forest.workspace from hw] at hb
  exact Recalls.recalled (F := e.forest) hr hF hb

/-- Every block of the workspace was drawn. -/
def Editor.Drawn (e : Editor) : Prop :=
  ∀ b, e.forest.Reaches (.block b) → e.store.Sketched b

theorem Editor.Drawn.recalls (hd : e.Drawn) (hF : e.forest.Sound)
    (hw : e'.workspace = e.workspace) (h : e.store.Recalls e'.store)
    (hl : e.store.Lasts e'.store) : e'.Drawn := fun b hb => by
  have hr := reached_block_of_recalls hF hw h hb
  have hlt : b.index < e.store.bare.blocks.size := hr.block_lt hF.store
  rw [size_blocks_bare] at hlt
  exact hl.sketched b hlt (hd b hr)

/-- The stacks have places, the workspace was drawn, and a stack with blocks is dragged and was
measured. -/
structure Editor.Hunting (e : Editor) : Prop where
  housed : e.store.Housed
  located : ∀ t ∈ e.workspace, e.store.Located t
  eased : e.Eased
  drawn : e.Drawn
  held : ∃ u b bs, e.cursor = some u ∧ e.store.blocksOf u = b :: bs
  measured : ∃ size, e.cursorSize = some size

theorem Editor.Hunting.after (h : e.Hunting) (hs : e.core.Steady) (hse : Seeks saved e e') :
    e'.Hunting := by
  have hw := (hse.glances hs).workspace_eq
  refine ⟨hse.lasts.housed h.housed, fun t ht => ?_, ?_,
    h.drawn.recalls hs.forest hw (hse.glances hs).recalls hse.lasts, ?_, ?_⟩
  · exact hse.lasts.located t (h.located t (hw ▸ ht))
  · rw [Eased, show e'.eases = e.eases from (congrArg eases hse.apart_eq :)]
    exact h.eased
  · obtain ⟨u, b, bs, hu, hr⟩ := h.held
    have hul := hs.forest.root_lt u (mem_roots.2 (.inr hu))
    refine ⟨u, b, bs, ((congrArg cursor hse.apart_eq :)).trans hu, ?_⟩
    rw [← blocksOf_forest, (hse.unfolds hs).blocksOf_eq u hul, blocksOf_forest, hr]
  · rw [show e'.cursorSize = e.cursorSize from (congrArg cursorSize hse.apart_eq :)]
    exact h.measured

/-- A stack that is reached has a place. -/
theorem located_of_reached (hF : e.forest.Sound) (housed : e.store.Housed)
    (hl : ∀ t ∈ e.workspace, e.store.Located t) (ht : e.forest.Reaches (.stack t)) :
    e.store.Located t := by
  generalize hv : Value.stack t = v at ht
  cases ht with
  | top ht =>
    cases hv
    exact hl t ht
  | row => cases hv
  | @slot b i v hb hs =>
    subst hv
    rw [slot?_forest] at hs
    exact housed.located (.of_bare hF.store) hs

/-- A block has a value for each slot. -/
theorem length_values_of_reached (hF : e.forest.Sound) (hb : e.forest.Reaches (.block b)) :
    (e.store.block b).values.length = (e.store.definitionOf b).inputs.length := by
  have hl := hF.store.length_values b (hb.block_lt hF.store)
  rwa [definitionOf_forest, show e.forest.store = e.store.bare from rfl, values_bare] at hl

theorem failsOnly_heldFirst_of_row (h : ∃ u b bs, e.cursor = some u ∧ e.store.blocksOf u = b :: bs) :
    FailsOnly p heldFirst e := by
  obtain ⟨u, b, bs, hu, hr⟩ := h
  refine .step rfl ?_
  rw [hu]
  dsimp only
  rw [hr]
  exact .pure _

theorem Editor.Eased.sure_heldPlace (h : e.Eased) : Sure heldPlace e :=
  .step rfl (.ofExcept_bind h.cursorPlace fun _ _ => .ofExcept (h.toWorld _))

theorem failsOnly_heldSize_of_measured (h : ∃ size, e.cursorSize = some size) :
    FailsOnly p heldSize e := by
  obtain ⟨size, hs⟩ := h
  refine .step rfl ?_
  rw [hs]
  exact .pure _

namespace Editor.Hunting

variable {p : Fault → Prop}

theorem failsOnly_heldFirst (h : e.Hunting) : FailsOnly p heldFirst e :=
  failsOnly_heldFirst_of_row h.held

theorem failsOnly_heldLast (h : e.Hunting) : FailsOnly p heldLast e := by
  obtain ⟨u, b, bs, hu, hr⟩ := h.held
  refine .step rfl ?_
  rw [hu]
  dsimp only
  rw [hr, List.getLast?_cons]
  exact .pure _

end Editor.Hunting

end BlockStudio
