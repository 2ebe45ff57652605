import BlockStudio.Proofs.Depicted
import BlockStudio.Proofs.Ownership
import BlockStudio.Proofs.RoundTrip
import BlockStudio.Proofs.Sketching

/-!
# Drawing that cannot fail

`Editor.Calm` collects what drawing relies on: the parts of the editor fit together, nothing stands in
two places, every stack at the top has a block, slots for bodies hold nothing or stacks that have
places, and so do the stacks of the workspace.  In a calm editor the stacks, the palette and the
dialogs are drawn without fail, except for faults of reckoning.
-/

namespace BlockStudio

open Forest Store Edit List

variable {α : Type} {saved : Forest → Prop} {F F' : Forest} {e e' : Editor} {s : Store} {t u : StackId}
  {tree : Tree} {considered : Editor → Event → Prop} {v : Value}
  {again : Nat → StackId → Edit Rendering} {p : Fault → Prop} {m : Sketch α}

/-! ## Stacks with blocks -/

namespace Forest

/-- Every root has a block. -/
def Filled (F : Forest) : Prop := ∀ t ∈ F.roots, F.store.blocksOf t ≠ []

section

variable (h : F.Filled)
include h

/-- Roots are only lost, and rows stay. -/
theorem Filled.mono (hr : ∀ t ∈ F'.roots, t ∈ F.roots)
    (hro : ∀ t ∈ F.roots, F'.store.blocksOf t = F.store.blocksOf t) : F'.Filled := fun t ht => by
  rw [hro t (hr t ht)]
  exact h t (hr t ht)

/-- The dragged stack is a new one, and the rows of the others stay. -/
theorem Filled.lift {workspace : List StackId} (hw : ∀ t ∈ workspace, t ∈ F.workspace)
    (hr : ∀ t ∈ F.workspace, s.blocksOf t = [] → F.store.blocksOf t = []) (hu : s.blocksOf u ≠ []) :
    (Forest.mk s workspace (some u)).Filled := by
  intro t ht
  rcases mem_roots_some ht with ht | rfl
  · exact fun hn => h t (workspace_subset_roots (hw t ht)) (hr t (hw t ht) hn)
  · exact hu

/-- A new stack with blocks is dragged. -/
theorem Filled.addRoot (hF : F.Sound) {src : Store} {vs : List Value} (hs : Sprouts src F.store s vs)
    {workspace : List StackId} (hsu : workspace.Sublist F.workspace) {bs : List BlockId} (hbs : bs ≠ [])
    {p : Option (List Value)} :
    (Forest.mk (s.addStack bs p).2 workspace (some ⟨s.allStacks.size⟩)).Filled := by
  refine h.lift (fun _ hu => hsu.subset hu) (fun u hu => ?_) ?_
  · have hlt := hF.root_lt u (workspace_subset_roots hu)
    rw [blocksOf_addStack_of_lt hs.sound _ _ (hlt.trans_le hs.grown.stacks_le),
      hs.grown.blocksOf_eq hF.store hlt]
    exact id
  · rwa [blocksOf_addStack_self]

theorem Filled.roots {workspace : List StackId} {cursor : Option StackId}
    (hr : (Forest.mk F.store workspace cursor).roots.Sublist F.roots) :
    (Forest.mk F.store workspace cursor).Filled :=
  h.mono (fun _ ht => hr.subset ht) fun _ _ => rfl

theorem Filled.editRow (hF : F.Sound) (ht : t.index < F.store.allStacks.size)
    {f : List BlockId → List BlockId} (hf : t ∈ F.roots → f (F.store.blocksOf t) ≠ [])
    {cursor : Option StackId} (hc : ∀ u, cursor = some u → F.cursor = some u) :
    (Forest.mk (F.store.editRow t f) F.workspace cursor).Filled := by
  intro u hu
  have hr : u ∈ F.roots := by
    rcases mem_roots.1 hu with hu | hu
    · exact workspace_subset_roots hu
    · exact mem_roots.2 (.inr (hc u hu))
  by_cases hut : u = t
  · subst hut
    rw [hF.store.rowed.blocksOf_editRow_self ht]
    exact hf hr
  · rw [hF.store.rowed.blocksOf_editRow_of_ne ht (hF.root_lt u hr) hut]
    exact h u hr

theorem Filled.insert (hF : F.Sound) {i : Nat} (hu : F.cursor = some u)
    (ht : t ∈ F.workspace ∨ F.store.Held t) :
    (Forest.mk (spliced F.store t u i) F.workspace none).Filled := by
  have htl := hF.shown_lt (ht.imp_left fun h => workspace_subset_roots h)
  refine h.editRow hF htl (fun _ => ?_) fun _ hn => nomatch hn
  have hr := h u (mem_roots.2 (.inr hu))
  simp [hr]

/-- A change leaves a block in every root, when the projects that are opened have one. -/
theorem Filled.change (hF : F.Sound) (hsa : ∀ F0, saved F0 → F0.Filled)
    (hc : Change saved F F') : F'.Filled := by
  cases hc with
  | fill b i hv => exact h.mono (fun _ => id) fun t _ => by simp
  | openBody hco hk =>
    exact h.mono (fun _ => id) fun t ht => blocksOf_withBody_of_lt hF.store (hF.root_lt t ht)
  | liftStack ht =>
    exact h.addRoot hF (.self F.store hF.store) (eraseIdx_sublist ..)
      (h _ (workspace_subset_roots (mem_of_getElem? ht)))
  | liftBody ht hne =>
    exact (h.addRoot hF (.self F.store hF.store) (.refl _) hne).mono (fun _ => id) fun _ _ =>
      blocksOf_setValue ..
  | @split t i ht h0 hi =>
    have htl := hF.shown_lt (ht.imp_left fun h => workspace_subset_roots h)
    refine h.lift (fun _ => id) (fun u hu => ?_) ?_
    · by_cases hut : u = t
      · subst hut
        rw [blocksOf_cut_self htl]
        intro hn
        have hl := congrArg length hn
        simp only [length_take, length_nil] at hl
        omega
      · rw [blocksOf_cut_of_ne hF.store (hF.root_lt u (workspace_subset_roots hu)) hut]
        exact id
    · rw [blocksOf_cut_new hF.store htl]
      intro hn
      have hl := congrArg length hn
      simp only [length_drop, length_nil] at hl
      omega
  | hold hs hf => exact h.addRoot hF hs (.refl _) (cons_ne_nil _ _)
  | place ht => exact h.roots (roots_place ht)
  | insert hu ht hj hh => exact h.insert hF hu ht
  | plug hs hf hb hco hfi =>
    refine h.mono (fun _ hu => roots_discard.subset hu) fun u hu => ?_
    rw [Store.blocksOf_setValue, hs.grown.blocksOf_eq hF.store (hF.root_lt u hu)]
  | discard => exact h.roots roots_discard
  | removeStack k => exact h.roots ((eraseIdx_sublist ..).append_right _)
  | @removeBlock t i ht hi =>
    refine h.editRow hF ht (fun hr hn => ?_) fun _ => id
    have hp := length_pos_iff.2 (h t hr)
    have hl := congrArg length hn
    have hne := hi hr
    rw [length_eraseIdx, length_nil] at hl
    split at hl <;> omega
  | clear => exact h.roots ((nil_sublist _).append_right _)
  | @load F0 s t t0 h₀ ht0 hs hf hty =>
    intro u hu
    rcases mem_roots_load hu with hu | rfl
    · show s.blocksOf u ≠ []
      rw [hs.grown.blocksOf_eq hF.store (hF.root_lt u hu)]
      exact h u hu
    · intro hn
      have hno := hsa _ h₀ t0 (workspace_subset_roots ht0)
      rw [types, types, hn] at hty
      simp [hno] at hty
  | grow h₀ hs hf =>
    exact h.mono (fun _ => id) fun u hu => hs.grown.blocksOf_eq hF.store (hF.root_lt u hu)

theorem Filled.changes (hF : F.Sound) (hs : ∀ F0, saved F0 → F0.Filled)
    (hc : Changes saved F F') : F'.Filled := by
  induction hc with
  | refl => exact h
  | tail h' hch ih => exact ih.change (hF.changes h') hs hch

theorem Filled.crown (hF : F.Sound) (hc : Crown F F') : F'.Filled := by
  cases hc with
  | mk hu hr hb hj hh => exact h.insert hF hu hr.mem_or_held

theorem Filled.share (hF : F.Sound) (hs : Share F F') : F'.Filled := by
  cases hs with
  | stack ht => exact h.addRoot hF (.self F.store hF.store) (.refl _) (h _ (workspace_subset_roots ht))
  | block hc _ => exact h.addRoot hF hc.sprouts (.refl _) (cons_ne_nil _ _)

end

end Forest

/-- Every root has a block, in every run that opens projects of such runs. -/
theorem Reachable.filled {files : String → Prop} {phase : Phase}
    (h : Reachable files considered phase e) (hfi : ∀ text, files text → Saves Filled text) :
    e.forest.Filled :=
  h.forest hfi (fun t ht => by simp at ht) (fun _ _ hF hc hf => hf.changes hF (fun _ => id) hc)
    (fun _ _ _ _ _ hF hs hf => hf.share hF hs)
    fun _ _ _ _ _ hF hcr hf => hf.crown hF hcr

theorem Written.savesFilled {text : String} (h : Written considered text) : Saves Filled text :=
  h.closed fun _ e _ he ht => ⟨e, (he.steady fun _ => id).1, he.filled fun _ => id, ht⟩

/-! ## Trees with bodies -/

/-- Where slots for bodies are in order, the trees that are shown have bodies. -/
theorem Store.Housed.bodied (h : s.Housed) (hs : s.bare.Sound) (ht : s.bare.Shows tree v) :
    tree.Bodied := by
  induction tree generalizing v with
  | nothing | truth _ | number _ | text _ => trivial
  | block d ts ih =>
    obtain ⟨b, rfl, hb, rfl, hts⟩ := shows_block.1 ht
    refine ⟨forall₂_iff_get.2 ⟨?_, fun i hi hi' hk => ?_⟩, Tree.allBodied_iff.2 fun t ht => ?_⟩
    · exact (hts.length_eq.trans (hs.length_values b hb)).symm
    · have hii : i < (s.bare.block b).values.length := hts.length_eq ▸ hi'
      have hsh := hts.get hi' hii
      have hh : s.Houses ((s.bare.block b).values[i]) := by
        refine h b i (s.bare.definitionOf b).inputs[i] _ ?_ hk ?_
        · rw [← definitionOf_bare]
          exact getElem?_eq_getElem hi
        · rw [slot?, ← values_bare]
          exact getElem?_eq_getElem hii
      rw [get_eq_getElem, get_eq_getElem] at hsh
      rcases hh with hn | ⟨t, hst, -⟩
      · rw [hn] at hsh
        rw [get_eq_getElem]
        generalize ts[i] = t at hsh
        cases t <;> first | trivial | (obtain ⟨_, ⟨⟩, -⟩ := hsh)
      · rw [hst] at hsh
        obtain ⟨p, us, heq, -⟩ := hsh.exists_stack
        rw [get_eq_getElem, heq]
        trivial
    · obtain ⟨v, -, hv⟩ := exists_of_forall₂_left hts ht
      exact ih t ht hv
  | stack p ts ih =>
    obtain ⟨r, rfl, -, -, hts⟩ := shows_stack.1 ht
    refine Tree.allBodied_iff.2 fun t ht => ?_
    obtain ⟨b, -, hb⟩ := exists_of_forall₂_left hts ht
    exact ih t ht hb

theorem Forest.exists_occurs_of_reached (h : F.Reaches v) : ∃ p, F.Occurs p v := by
  induction h with
  | top ht =>
    obtain ⟨k, hk⟩ := getElem?_of_mem (workspace_subset_roots ht)
    exact ⟨_, .root hk⟩
  | row _ hb ih =>
    obtain ⟨p, hp⟩ := ih
    obtain ⟨i, hi⟩ := getElem?_of_mem hb
    exact ⟨_, .row hp hi⟩
  | slot _ hv ih =>
    obtain ⟨p, hp⟩ := ih
    exact ⟨_, .slot hp hv⟩

/-! ## Calm editors -/

/-- What drawing relies on. -/
structure Editor.Calm (e : Editor) : Prop where
  steady : e.core.Steady
  unshared : e.forest.Unshared
  filled : e.forest.Filled
  housed : e.store.Housed
  located : ∀ t ∈ e.workspace, e.store.Located t
  eased : e.Eased

namespace Editor

variable {b : BlockId}

theorem Calm.sound (h : e.Calm) : e.forest.Sound := h.steady.forest

end Editor

/-- Each stack of the workspace was drawn. -/
def Editor.Shown (e : Editor) : Prop :=
  ∀ (i : Nat) t, e.workspace[i]? = some t → ∃ r, e.renderings[i]? = some (some r)

/-- What is in order in the store and the camera stays so. -/
structure Abides (e e' : Editor) : Prop where
  lasts : e.store.Lasts e'.store
  eases_eq : e'.eases = e.eases
  located : ∀ t ∈ e'.workspace, t ∈ e.workspace ∨ e'.store.Located t

instance : IsPreorder Editor Abides where
  refl _ := ⟨.refl _, rfl, fun _ => .inl⟩
  trans _ _ _ h h' := ⟨h.lasts.trans h'.lasts, h'.eases_eq.trans h.eases_eq, fun t ht =>
    (h'.located t ht).elim (fun ht => (h.located t ht).imp_right (h'.lasts.located t)) .inr⟩

/-- A step that a calm editor can take. -/
def Carries (saved : Forest → Prop) (e e' : Editor) : Prop := Moves saved e e' ∧ Abides e e'

instance (saved : Forest → Prop) : IsPreorder Editor (Carries saved) where
  refl e := ⟨refl_of (Moves saved) e, refl_of Abides e⟩
  trans _ _ _ h h' := ⟨h.1.trans h'.1, trans_of Abides h.2 h'.2⟩

theorem Carries.calm (h : Carries saved e e') (hsa : ∀ F, saved F → F.Filled) (he : e.Calm) :
    e'.Calm := by
  obtain ⟨hs, hc⟩ := h.1 he.steady
  refine ⟨hs, he.unshared.changes he.steady.forest hc,
    he.filled.changes he.steady.forest hsa hc, h.2.lasts.housed he.housed, fun t ht => ?_,
    he.eased.congr h.2.eases_eq⟩
  exact (h.2.located t ht).elim (fun ht => h.2.lasts.located t (he.located t ht)) id

/-- A step that changes neither workspace nor easings, and in the store only places. -/
theorem abides_sketch {s : Sketch α} (hs : Preserves s) : Keeps Abides (sketch s) :=
  .sketch hs fun _ _ hl => ⟨hl, rfl, fun _ => .inl⟩

/-- A step that leaves store, workspace and easings alone. -/
theorem Abides.of_parts (hs : e'.store = e.store) (hw : e'.workspace = e.workspace)
    (he : e'.eases = e.eases) : Abides e e' where
  lasts := hs ▸ .refl _
  eases_eq := he
  located _ ht := .inl (hw ▸ ht)

theorem Editor.Calm.congr (h : e.Calm) (hco : e'.core = e.core) (hs : e'.store = e.store)
    (he : e'.eases = e.eases) : e'.Calm := by
  have hw : e'.workspace = e.workspace := (congrArg (fun c : Core => c.forest.workspace) hco :)
  have hc : Carries (fun _ => False) e e' :=
    ⟨.of_core hco, .of_parts hs hw he⟩
  exact hc.calm (fun _ => False.elim) h

theorem abides_render (t : StackId) : Keeps Abides (render t) :=
  .bind (abides_sketch (preserves_stack t)) fun _ => .bind .get fun _ => .ofExcept _

theorem abides_setRendering (i : Nat) (r : Rendering) : Keeps Abides (setRendering i r) :=
  .bind .get fun _ => .ite (fun _ => .modify fun _ => .of_parts rfl rfl rfl) fun _ => .throw _

theorem abides_redraw (i : Int) : Keeps Abides (redraw i) :=
  keeps_refreshAll (fun _ => abides_render) abides_setRendering i

theorem abides_rescaleAll (i : Int) : Keeps Abides (rescaleAll i) :=
  keeps_refreshAll keeps_rescale abides_setRendering i

/-! ## Stacks are drawn -/

theorem Paints.failsOnly {q : Store → Prop} {Q : α → Prop} (hm : Paints False q m Q) {c : Canvas}
    (hc : q c.store) : FailsOnly p m c := fun _ _ h =>
  (hm.error hc h).elim

/-- What drawing the workspace relies on; what is dragged does not count. -/
structure Editor.Ready (e : Editor) : Prop where
  sound : e.store.bare.Sound
  trees : ∀ t ∈ e.workspace, ∃ tree, e.store.bare.Shows tree (.stack t)
  pictured : Pictured e.workspace e.renderings
  housed : e.store.Housed
  located : ∀ t ∈ e.workspace, e.store.Located t
  eased : e.Eased

/-- A stack that shows a tree can be drawn. -/
theorem failsOnly_stack {q : Fault → Prop} (hs : e.store.bare.Sound) (hh : e.store.Housed)
    (ht : e.store.bare.Shows tree (.stack t)) : FailsOnly q (sketch (Sketch.stack t)) e := by
  have hg : e.store.bare.Grown e.store := grown_of_bare_eq (bare_bare _).symm
  obtain ⟨hk, -⟩ := hs.known_fitted ht
  obtain ⟨size, c, hsk, -⟩ := exists_sketch_stack hg hk (hh.bodied hs ht) ht
  exact .sketch (.of_ok hsk)

theorem sure_render (hs : e.store.bare.Sound) (hh : e.store.Housed) (he : e.Eased)
    (ht : e.store.bare.Shows tree (.stack t)) (hl : e.store.Located t) :
    Sure (render t) e := by
  refine (failsOnly_stack hs hh ht).bind fun full e1 hsk => ?_
  have ha := (abides_sketch (preserves_stack t)).ok hsk
  refine .step rfl (.ofExcept ?_)
  exact (he.congr ha.eases_eq).rendering (ha.lasts.located t hl) full

theorem Editor.Calm.exists_tree (h : e.Calm) {p : Occurrence} (ht : e.forest.Occurs p (.stack t)) :
    ∃ tree, e.store.bare.Shows tree (.stack t) :=
  ht.exists_tree h.sound h.unshared (position_bare e.store)

theorem Editor.Calm.ready (h : e.Calm) : e.Ready where
  sound := h.sound.store
  trees _ ht := by
    obtain ⟨p, hp⟩ := exists_occurs_of_reached (F := e.forest) (.top ht)
    exact h.exists_tree hp
  pictured := h.steady.pictured
  housed := h.housed
  located := h.located
  eased := h.eased

namespace Editor.Ready

theorem repaints (h : e.Ready) (hr : Repaints e e') (ha : Abides e e') : e'.Ready := by
  have hb := bare_of_unseen hr.1
  have hw := hr.workspace_eq
  refine ⟨hb ▸ h.sound, ?_, hr.2 h.pictured, ha.lasts.housed h.housed, fun t ht => ?_,
    h.eased.congr ha.eases_eq⟩
  · rw [hb, hw]
    exact h.trees
  · exact ha.lasts.located t (h.located t (hw ▸ ht))

/-- Finding the places of all stacks, when each can be found. -/
theorem sure_refreshAll (hpc : ∀ i t, Pictures (again i t))
    (hst : ∀ i t e r e', again i t e = .ok r e' → r.stack = t)
    (hab : ∀ i t, Keeps Abides (again i t)) {I : Editor → Prop} (he : I e)
    (hI : ∀ e e' : Editor, Repaints e e' → Abides e e' → (∀ (i : Nat) r, e.renderings[i]? = some (some r) →
      ∃ r', e'.renderings[i]? = some (some r')) → I e → I e')
    (hsu : ∀ e : Editor, I e → ∀ (i : Nat) t, e.workspace[i]? = some t → Sure (again i t) e)
    (hpi : ∀ e : Editor, I e → Pictured e.workspace e.renderings) (i : Int) :
    Sure (refreshAll again i) e := by
  unfold refreshAll
  refine .step rfl (.ite (fun _ => ?_) fun _ => .pure _)
  refine .bind ?_ fun _ _ _ => .pure _
  refine .forIn (I := fun e1 => I e1 ∧ e1.workspace = e.workspace) _ _ ⟨he, rfl⟩
    (fun p hp _ e1 h1 => ?_) fun p hp _ e1 r e2 h1 hr => ?_
  · have hp := mem_zipIdx' hp
    have hg : e1.workspace[p.2]? = some p.1 := by
      rw [h1.2, hp.2]
      exact getElem?_eq_getElem hp.1
    refine (hsu e1 h1.1 p.2 p.1 hg).bind fun r e2 hr => ?_
    have hrn : e2.renderings = e1.renderings := renderings_of_bare ((hpc ..).ok hr)
    refine .bind ?_ fun _ _ _ => .pure _
    refine .step rfl (.ite (fun _ => .modify _) fun hlt => absurd ?_ hlt)
    rw [hrn, (hpi e1 h1.1).length_eq, h1.2]
    exact hp.1
  · have hp := mem_zipIdx' hp
    have hg : e1.workspace[p.2]? = some p.1 := by
      rw [h1.2, hp.2]
      exact getElem?_eq_getElem hp.1
    obtain ⟨rendering, e3, ha, hr⟩ := bind_eq_ok.1 hr
    obtain ⟨_, e4, hs, hr⟩ := bind_eq_ok.1 hr
    obtain ⟨-, rfl⟩ := pure_eq_ok.1 hr
    have hro := bind_eq_ok.2 ⟨rendering, e3, ha, hs⟩
    have hre := (repaintsIn_setRendering hpc hst hg).ok hro rfl
    have ha' := trans_of Abides ((hab ..).ok ha) ((abides_setRendering ..).ok hs)
    refine ⟨hI _ _ hre ha' (fun k r' hk => ?_) h1.1, hre.workspace_eq.trans h1.2⟩
    obtain ⟨hlt, rfl⟩ := setRendering_eq_ok hs
    rw [← renderings_of_bare ((hpc ..).ok ha)] at hk
    by_cases hkp : p.2 = k
    · subst hkp
      exact ⟨rendering, getElem?_set_self hlt⟩
    · exact ⟨r', (getElem?_set_ne hkp).trans hk⟩

/-- All stacks can be drawn. -/
theorem sure_redraw (h : e.Ready) (i : Int) : Sure (redraw i) e := by
  refine sure_refreshAll (fun _ => pictures_render) (fun _ _ _ _ _ => stack_render)
    (fun _ => abides_render) h (fun _ _ hr ha _ he => he.repaints hr ha) (fun e he i t ht => ?_)
    (fun e he => he.pictured) i
  have hm := mem_of_getElem? ht
  obtain ⟨tree, htr⟩ := he.trees t hm
  exact sure_render he.sound he.housed he.eased htr (he.located t hm)

/-- All stacks can be scaled, once each was drawn. -/
theorem sure_rescaleAll (h : e.Ready) (hsh : e.Shown) (i : Int) : Sure (rescaleAll i) e := by
  refine sure_refreshAll (I := fun e => e.Ready ∧ e.Shown) keeps_rescale
    (fun _ _ _ _ _ => stack_rescale) keeps_rescale ⟨h, hsh⟩ (fun e e' hr ha hs he => ?_)
    (fun e he i t ht => ?_) (fun e he => he.1.pictured) i
  · refine ⟨he.1.repaints hr ha, fun i t hi => ?_⟩
    rw [hr.workspace_eq] at hi
    obtain ⟨r, hr⟩ := he.2 i t hi
    exact hs i r hr
  · obtain ⟨r, hr⟩ := he.2 i t ht
    refine .step rfl ?_
    rw [hr]
    exact .step rfl (.ofExcept (he.1.eased.rendering (he.1.located t (mem_of_getElem? ht)) _))

end Editor.Ready

/-! ## The palette -/

theorem exists_startStacks (h : e.forest.Filled) : ∃ ts, e.startStacks = .ok ts := by
  have hn : ∀ t ∈ e.workspace, ∃ p : StackId × String,
      (do return (t, ← e.firstName t) : Except Fault (StackId × String)) = .ok p := by
    intro t ht
    have hr := h t (workspace_subset_roots ht)
    rw [blocksOf_forest] at hr
    unfold Editor.firstName
    split
    · contradiction
    · exact ⟨_, rfl⟩
  obtain ⟨ps, hps⟩ := exists_forall₂ (R := fun p t =>
    (do return (t, ← e.firstName t) : Except Fault (StackId × String)) = .ok p) hn
  exact ⟨_, except_bind_eq_ok.2 ⟨ps, mapM_eq_ok.2 hps.flip, rfl⟩⟩

/-- A block with all slots unfilled. -/
def Definition.unfilled (d : Definition) : Tree := .block d (replicate d.countInputs .nothing)

/-- A block of the catalogue can be drawn unfilled. -/
theorem Paints.drawUnfilled {bad : Prop} {d : Definition} (hd : d ∈ Catalogue.blocks) :
    Paints bad s.Grown (Layout.drawUnfilled d) (· = d.unfilled.measure) := by
  have hdr := drawable_of_mem hd
  have hin : d.countInputs = (d.components.filter fun c => decide (c.kind ≠ .label)).length := rfl
  have hl : Paints bad s.Grown (Layout.drawLayers (fun _ => return ⟨1, 1⟩)
      (fun _ => Layout.drawEllipsis) d.color d.components (replicate d.countInputs .none) [])
      (Layered 0 d.components (replicate d.countInputs .nothing) []) := by
    refine drawLayers hdr.outline (fun t b _ _ hb => ?_) drawEllipsis (fun t r _ _ hr => ?_)
      hdr.default_leaf (fun t ht => ?_) ?_ ?_ []
    · obtain ⟨ts, rfl, -⟩ := hb.exists_block
      exact .pure fun _ hh => absurd hh (Nat.not_succ_le_zero _)
    · obtain ⟨p, ts, rfl, -⟩ := hr.exists_stack
      exact drawEllipsis.mono fun _ _ _ hh => absurd hh (Nat.not_succ_le_zero _)
    · rw [eq_of_mem_replicate ht]
      exact ⟨trivial, .inr trivial⟩
    · refine forall₂_iff_get.2 ⟨by simp [hin], fun i hi hi' => .inr fun _ => ?_⟩
      rw [get_eq_getElem, getElem_replicate]
      trivial
    · exact forall₂_iff_get.2 ⟨by simp, fun i hi hi' => by simp [Shows]⟩
  refine .bind hl fun layers h => ?_
  refine (assemble hdr.outline (h.ne_nil (.inl hdr.components_ne_nil)) fun _ =>
    .pure trivial).mono fun size hsi => ?_
  have hs : List.Forall₂ Tree.FitsSlot (d.components.filter fun c => decide (c.kind ≠ .label))
      (replicate d.countInputs .nothing) := by
    refine forall₂_iff_get.2 ⟨by simp [hin], fun i hi hi' => ?_⟩
    simp only [get_eq_getElem, getElem_replicate]
    trivial
  obtain ⟨heq, -⟩ := h.eq_layers hs fun t ht => by
    rw [eq_of_mem_replicate ht]
    exact ⟨trivial, le_rfl⟩
  rw [hsi, heq, Definition.unfilled, Tree.measure, Tree.measures_eq_map]

theorem Offers.abides (h : Offers e e') : Abides e e' :=
  .of_parts (congrArg Editor.store h.1 :) (congrArg Editor.workspace h.1 :) (congrArg Editor.eases h.1 :)

/-- Blocks of the catalogue can be drawn in the palette. -/
theorem sure_drawPaletteBlocks (mask : Size) {ds : List Definition}
    (hds : ∀ d ∈ ds, d ∈ Catalogue.blocks) (y : Num) (hf : e.forest.Filled) :
    Sure (drawPaletteBlocks mask y ds) e := by
  induction ds generalizing y e with
  | nil => exact .pure _
  | cons d ds ih =>
    obtain ⟨hd, hds⟩ := forall_mem_cons.1 hds
    unfold drawPaletteBlocks
    have ho : ∀ {β : Type} {m : Edit β} {a : β} {e e' : Editor}, Inks m →
        m e = .ok a e' → e.forest.Filled → e'.forest.Filled := fun hm h hf => by
      rw [(hm.offers.ok h).forest_eq]
      exact hf
    refine .bind (.sketch ((Paints.drawUnfilled hd).failsOnly (.refl _))) fun full e1 h1 => ?_
    have hf := ho (strokes_drawUnfilled d).inks h1 hf
    refine .ofExcept_bind (reckons_scaleBy _ _) fun size _ => ?_
    refine .bind (.draw _) fun _ e2 h2 => .step rfl ?_
    have hf := ho (inks_draw _) h2 hf
    obtain ⟨starts, hs⟩ := exists_startStacks hf
    rw [hs]
    have hr : ∀ e' : Editor, e'.forest = e2.forest → Sure (do
        modify fun e => { e with paletteEnd := y }
        drawPaletteBlocks mask (y + (size.h + 25 : Nat)) ds) e' := fun e' h' =>
      .step rfl (ih hds _ (show e'.forest.Filled from h' ▸ hf))
    refine .ite (fun _ => ?_) fun _ => ?_
    · refine (FailsOnly.map (.pure _)).read (Keeps.map (Keeps.pure _)) fun offered _ => ?_
      exact .ite (fun _ => .step rfl (hr _ rfl)) fun _ => hr _ rfl
    · refine .read (Keeps.pure _) (.pure _) fun offered _ => ?_
      exact .ite (fun _ => .step rfl (hr _ rfl)) fun _ => hr _ rfl

/-- The palette can be drawn. -/
theorem Editor.Calm.sure_drawPalette (h : e.Calm) : Sure drawPalette e := by
  have hcl : Sure clearPalette e :=
    .step rfl (.ofExcept_bind (Reckons.make _ _) fun _ _ => .draw _)
  unfold drawPalette
  refine hcl.bind fun _ e1 h1 => .step rfl (.step rfl ?_)
  have hem : Offers e1 { e1 with palette := [] } := ⟨rfl, fun _ _ h => absurd h not_mem_nil⟩
  have ho := trans_of Offers (offers_clearPalette.ok h1) hem
  have he : e1.eases = e.eases := (congrArg Editor.eases ho.1 :)
  split
  · exact .pure _
  · rename_i c hc
    have hb : ∀ d ∈ c.blocks, d ∈ Catalogue.blocks := fun d =>
      mem_catalogue (mem_of_getElem? hc)
    refine .ofExcept_bind (Reckons.make _ _) fun mask _ => ?_
    refine .bind (.sketch ((Paints.write (p := fun _ => True) ..).failsOnly trivial))
      fun line e2 h2 => .bind (.draw _) fun _ e3 h3 => ?_
    have hs : e1.scroll.Eased := (h.eased.congr he).scroll
    refine .ofExcept_bind hs.value fun y _ => ?_
    have ho3 := trans_of Offers ho (trans_of Offers ((Strokes.write ..).inks.offers.ok h2)
      ((inks_draw _).offers.ok h3))
    exact sure_drawPaletteBlocks mask hb _ (ho3.forest_eq ▸ h.filled)

/-! ## Dialogs -/

section Dialog

variable {c : Canvas}

theorem FailsOnly.sketch_ofExcept {r : Except Fault α} (h : ∀ f, r = .error f → p f) :
    FailsOnly p (Sketch.ofExcept r) c := by
  cases r with
  | ok a => exact .pure a
  | error f => exact .throw (h f rfl)

theorem sure_make (size window : Point) (title message : String) (buttons : List Button) :
    FailsOnly Fault.Numeric (Dialog.make size window title message buttons) c := by
  cases hw : Size.make window.x window.y with
  | error f =>
    unfold Dialog.make
    rw [hw]
    exact .bind (.throw (Reckons.make _ _ f hw)) fun _ _ h => absurd h throw_ne_ok
  | ok whole =>
    cases hs : Size.make size.x size.y with
    | error f =>
      unfold Dialog.make
      rw [hw, hs]
      refine .bind (.pure _) fun _ _ _ => .bind (.modify _) fun _ _ _ => ?_
      exact .bind (.throw (Reckons.make _ _ f hs)) fun _ _ h => absurd h throw_ne_ok
    | ok box =>
      exact (Paints.dialog (p := fun _ => True) hw hs title message buttons).failsOnly trivial

theorem sure_makePrompt (size window : Point) (title message : String) (buttons : List Button) :
    FailsOnly Fault.Numeric (Dialog.makePrompt size window title message buttons) c :=
  (sure_make _ _ _ _ _).bind fun _ _ _ => .bind (.sketch_ofExcept (Reckons.make _ _)) fun _ _ _ =>
    .bind (.modify _) fun _ _ _ => .bind (.modify _) fun _ _ _ => .pure _

end Dialog

theorem sure_showDialog (part : Nat) (title message : String) (buttons : List Button)
    (purpose : Purpose) : Sure (showDialog part title message buttons purpose) e :=
  .step rfl (.bind (.sketch (sure_make _ _ _ _ _)) fun _ _ _ => .modify _)

theorem sure_showPrompt (title message : String) (purpose : Purpose) :
    Sure (showPrompt title message purpose) e :=
  .step rfl (.bind (.sketch (sure_makePrompt _ _ _ _ _)) fun _ _ _ => .modify _)

end BlockStudio
