import BlockStudio.Proofs.Aiming

/-!
# The search for a place to join

The search goes through the stacks of the workspace, the slots of their blocks and the bodies below
them.  Each part of it is a `Quest`: it seeks, whatever the editor is like, and it does not fail in an
editor that was drawn and whose stacks have places.  What a part relies on is there for the next one,
so the whole search is a quest, by induction on its depth.  After an update the candidate is aimed,
whatever it was before, and the window would show what it showed before.
-/

namespace BlockStudio

open Forest Edit Store List

variable {α β : Type} {saved : Forest → Prop} {e e' : Editor} {sure : Prop} {c : Candidate}
  {x : Edit α} {f : α → Edit β} {v : Value} {P : Forest → Prop}

/-! ## Quests -/

/-- The editor is steady, and what the search relies on is there if it must not fail. -/
structure Editor.Prepared (sure : Prop) (e : Editor) : Prop where
  steady : e.core.Steady
  hunting : sure → e.Hunting

theorem Editor.Prepared.after (h : e.Prepared sure) (hs : Seeks saved e e') : e'.Prepared sure :=
  ⟨hs.steady h.steady, fun hsu => (h.hunting hsu).after h.steady hs⟩

/-- A part of the search, which does not fail if it must not. -/
structure Quest (saved : Forest → Prop) (sure : Prop) (m : Edit α) (e : Editor) : Prop where
  seeks : Seeks saved e (endState (m e))
  sure : sure → Sure m e

protected theorem Quest.pure (a : α) : Quest saved sure (pure a) e :=
  ⟨refl e, fun _ => .pure a⟩

protected theorem Quest.ite {p : Prop} [Decidable p] {y : Edit α} (hx : p → Quest saved sure x e)
    (hy : ¬p → Quest saved sure y e) : Quest saved sure (if p then x else y) e := by
  split
  · exact hx ‹_›
  · exact hy ‹_›

/-- A part that looks at the editor first. -/
protected theorem Quest.read (hx : Reads x) (hs : sure → Sure x e)
    (hf : ∀ a, x e = .ok a e → Quest saved sure (f a) e) : Quest saved sure (x >>= f) e :=
  ⟨hx.run_bind (p := fun t => Seeks saved e t) (refl e) fun a h => (hf a h).seeks,
    fun h => (hs h).read hx fun a ha => (hf a ha).sure h⟩

protected theorem Quest.store {f : Store → Edit α} (h : Quest saved sure (f e.store) e) :
    Quest saved sure (store >>= f) e :=
  .read reads_store (fun _ => .of_ok rfl) fun _ hs => by
    cases hs
    exact h

theorem Quest.bind (hp : e.Prepared sure) (hx : Quest saved sure x e)
    (hf : ∀ a e', Seeks saved e e' → e'.Prepared sure → Quest saved sure (f a) e') :
    Quest saved sure (x >>= f) e := by
  refine ⟨run_bind hx.seeks fun a e' _ h => (hf a e' h (hp.after h)).seeks, fun hsu => ?_⟩
  refine (hx.sure hsu).bind fun a e' h => ?_
  have hs := hx.seeks
  rw [h] at hs
  exact (hf a e' hs (hp.after hs)).sure hsu

/-- A part of the search goes on as another one in an editor that was sought. -/
theorem Quest.of_run {m n : Edit α} (hr : m e = n e') (hs : Seeks saved e e')
    (h : Quest saved sure n e') : Quest saved sure m e := by
  refine ⟨?_, fun hsu => ?_⟩
  · rw [hr]
    exact trans_of (Seeks saved) hs h.seeks
  · intro f t hf
    exact h.sure hsu f t (hr ▸ hf)

theorem quest_propose (hi : c.stackIndex < e.workspace.length) (hc : Aimed e.forest c) :
    Quest saved sure (propose c) e :=
  ⟨seeks_propose hi hc, fun _ => .modify _⟩

/-- A place is proposed, and the search in this stack ends. -/
theorem quest_take (hi : c.stackIndex < e.workspace.length) (hc : Aimed e.forest c) (a : α) :
    Quest saved sure (do propose c; pure a) e :=
  ⟨run_bind (seeks_propose hi hc) fun _ _ _ _ => refl _,
    fun _ => .bind (.modify _) fun _ _ _ => .pure a⟩

/-! ## The dragged stack and the places -/

namespace Editor.Prepared

variable {f : Block → Edit α}

section

variable (h : e.Prepared sure)
include h

theorem heldFirst (hf : ∀ b, heldFirst e = .ok b e → Quest saved sure (f b) e) :
    Quest saved sure (heldFirst >>= f) e :=
  .read reads_heldFirst (fun hs => (h.hunting hs).failsOnly_heldFirst) hf

theorem heldLast (hf : ∀ b, heldLast e = .ok b e → Quest saved sure (f b) e) :
    Quest saved sure (heldLast >>= f) e :=
  .read reads_heldLast (fun hs => (h.hunting hs).failsOnly_heldLast) hf

theorem heldSize {f : Size → Edit α} (hf : ∀ s, Quest saved sure (f s) e) :
    Quest saved sure (heldSize >>= f) e :=
  .read reads_heldSize (fun hs => failsOnly_heldSize_of_measured (h.hunting hs).measured) fun s _ => hf s

theorem heldPlace {f : Point → Edit α} (hf : ∀ p, Quest saved sure (f p) e) :
    Quest saved sure (heldPlace >>= f) e :=
  .read reads_heldPlace (fun hs => (h.hunting hs).eased.sure_heldPlace) fun p _ => hf p

theorem joinLine {f : Rect Num → Edit α} (x y : Num) (hf : ∀ r, Quest saved sure (f r) e) :
    Quest saved sure (joinLine x y >>= f) e :=
  .read (reads_joinLine x y) (fun hs => (h.hunting hs).failsOnly_heldFirst.bind fun _ _ _ => .pure _)
    fun r _ => hf r

/-- The place of a stack that is reached. -/
theorem place {f : Point → Edit α} {t : StackId} (ht : e.forest.Reaches (.stack t))
    (hf : ∀ p, Quest saved sure (f p) e) :
    Quest saved sure (Edit.ofExcept (e.store.stack t).place >>= f) e := by
  refine .read (reads_ofExcept _) (fun hs => .ofExcept ?_) fun p _ => hf p
  have hu := h.hunting hs
  exact (located_of_reached h.steady.forest hu.housed hu.located ht).place

end

end Editor.Prepared

/-! ## Offering ends -/

section Ends

variable {stack : StackId} {row : List BlockId} {i count stackIndex : Nat} {id : BlockId}

theorem quest_checkEmpty (hp : e.Prepared sure) (hi : stackIndex < e.workspace.length)
    (hr : e.forest.Reaches (.stack stack)) (hro : e.store.blocksOf stack = []) :
    Quest saved sure (checkEmpty stack stackIndex) e := by
  unfold checkEmpty
  refine hp.heldPlace fun held => .store (hp.place hr fun place => ?_)
  refine .ite (fun _ => hp.heldFirst fun first hf => ?_) fun _ => .pure _
  refine .ite (fun ht => ?_) fun _ => .pure _
  refine hp.joinLine _ _ fun outline => quest_propose hi ?_
  obtain ⟨u, -, hu, -⟩ := heldFirst_eq_ok hf
  have hh := head?_types_of_heldFirst hf hu
  have hr' : e.forest.store.blocksOf stack = [] := by rw [blocksOf_forest, hro]
  refine .ends (by simp) hu hr (.empty ?_ rfl ?_) fun _ => hr'
  · simp [types, hr']
  · rw [hh]
    exact ht.imp (congrArg some) (congrArg some)

theorem getElem?_types (hr : e.store.blocksOf stack = row) (hi : row[i]? = some id) :
    (e.forest.store.types stack)[i]? = some (e.store.block id).definition.blockType := by
  simp [types, Editor.forest, hr, hi, definitionOf]

theorem length_types (hr : e.store.blocksOf stack = row) :
    (e.forest.store.types stack).length = row.length := by
  simp [types, Editor.forest, hr]

theorem quest_checkBelow (hp : e.Prepared sure) (hin : stackIndex < e.workspace.length)
    (held place : Point) (hr : e.forest.Reaches (.stack stack))
    (hro : e.store.blocksOf stack = row) (hi : row[i]? = some id) :
    Quest saved sure (checkBelow stack stackIndex i row.length id held place) e := by
  unfold checkBelow
  refine .store (.ite (fun _ => hp.heldFirst fun first hf => ?_) fun _ => .pure _)
  obtain ⟨u, -, hu, -⟩ := heldFirst_eq_ok hf
  have hh := head?_types_of_heldFirst hf hu
  refine .ite (fun ht => ?_) fun _ => .pure _
  obtain ⟨hf, hb⟩ := ht
  push Not at hb
  refine hp.heldLast fun last hl => ?_
  have hg := getLast?_types_of_heldLast hl hu
  refine .ite (fun _ => .pure _) fun hc => ?_
  refine hp.joinLine _ _ fun outline => quest_take hin ?_ _
  refine .ends (by simp) hu hr ?_ (by simp)
  refine .below rfl (getElem?_types hro hi) hb.1 hb.2 ?_ fun h => ?_
  · rw [hh]
    exact hf.symm.imp (congrArg some) (congrArg some)
  · rw [length_types hro]
    rw [hg] at h
    by_contra hne
    exact hc ⟨Option.some.inj h, hne⟩

theorem quest_checkAbove (hp : e.Prepared sure) (hin : stackIndex < e.workspace.length)
    (held place : Point) {first : BlockId} {rest : List BlockId}
    (hr : e.forest.Reaches (.stack stack))
    (hro : e.store.blocksOf stack = first :: rest) (hi : (first :: rest)[i]? = some id) :
    Quest saved sure (checkAbove stack stackIndex i id
      (e.store.definitionOf first).blockType held place) e := by
  have hto : (e.forest.store.types stack).head? = some (e.store.definitionOf first).blockType := by
    simp [types, Editor.forest, hro]
  unfold checkAbove
  refine .store (hp.heldSize fun size => ?_)
  refine .ite (fun _ => hp.heldFirst fun held hhe => ?_) fun _ => .pure _
  obtain ⟨u, -, hu, -⟩ := heldFirst_eq_ok hhe
  have hh := head?_types_of_heldFirst hhe hu
  refine hp.heldLast fun last hl => ?_
  have hg := getLast?_types_of_heldLast hl hu
  refine .ite (fun ht => ?_) fun _ => .pure _
  obtain ⟨hf, hs, he, hha⟩ := ht
  push Not at hs he hha
  refine hp.joinLine _ _ fun outline => quest_take hin ?_ _
  refine .ends (by simp) hu hr (.above ?_ ?_ ?_ ?_ ?_ ?_ ?_) (by simp)
  · rw [length_types hro]
    exact (List.getElem?_eq_some_iff.1 hi).1
  · simpa [hto] using hs.1
  · simpa [hto] using hs.2
  · rw [hh]
    exact hf.imp (congrArg some) (congrArg some)
  · simpa [hg] using he.1
  · simpa [hg] using he.2
  · rw [hh]
    exact fun h => hha (Option.some.inj h)

end Ends

/-! ## Opening bodies on the way -/

section Bodies

variable {b : BlockId} {i : Nat} {comp : Component}

theorem bodyIn_run (hv : e.store.slot? b i = some v) (hs : ∀ t, v ≠ .stack t) :
    bodyIn b i e = .ok ⟨e.store.allStacks.size⟩ (e.withStore (withBody e.store b i)) := by
  have hi : i < (e.store.block b).values.length := (List.getElem?_eq_some_iff.1 hv).1
  have had : addStack [] none e =
      .ok ⟨e.store.allStacks.size⟩ (e.withStore (e.store.addStack [] none).2) := rfl
  have ha : Edit.assign b i (.stack ⟨e.store.allStacks.size⟩)
      (e.withStore (e.store.addStack [] none).2) =
        .ok () (e.withStore (withBody e.store b i)) := by
    unfold Edit.assign
    rw [store_bind, if_pos (by exact hi)]
    rfl
  unfold bodyIn
  rw [bind_run, slotValue_eq_ok.2 ⟨hv, rfl⟩]
  cases v with
  | stack t => exact absurd rfl (hs t)
  | _ =>
    dsimp only
    rw [bind_run, had]
    dsimp only
    rw [bind_run, ha]
    rfl

/-- The body in a slot, with what becomes of the editor when it is asked for. -/
theorem bodyIn_cases (b : BlockId) (i : Nat) (e : Editor) :
    (e.store.slot? b i = none ∧ ∃ f, bodyIn b i e = .error f e) ∨
      (∃ t, e.store.slot? b i = some (.stack t) ∧ bodyIn b i e = .ok t e) ∨
      ∃ v, e.store.slot? b i = some v ∧ (∀ t, v ≠ .stack t) ∧
        bodyIn b i e = .ok ⟨e.store.allStacks.size⟩ (e.withStore (withBody e.store b i)) := by
  rcases hv : e.store.slot? b i with _ | v
  · refine .inl ⟨rfl, .outOfRange .list, ?_⟩
    have hr : slotValue b i e = .error (.outOfRange .list) e := by
      unfold slotValue
      rw [store_bind]
      rw [slot?] at hv
      rw [hv]
      rfl
    unfold bodyIn
    rw [bind_run, hr]
  · by_cases hs : ∃ t, v = .stack t
    · obtain ⟨t, rfl⟩ := hs
      refine .inr (.inl ⟨t, rfl, ?_⟩)
      unfold bodyIn
      rw [bind_run, slotValue_eq_ok.2 ⟨hv, rfl⟩]
      rfl
    · have hne : ∀ t, v ≠ .stack t := fun t h => hs ⟨t, h⟩
      exact .inr (.inr ⟨v, rfl, hne, bodyIn_run hv hne⟩)

/-- The body of a slot is told where it is, and the search goes on in it. -/
theorem quest_placeBody {body : StackId → Edit α} (hp : e.Prepared sure)
    (hr : e.forest.Reaches (.block b))
    (hc : (e.forest.store.definitionOf b).inputs[i]? = some comp) (hk : comp.kind = .statement)
    (p : Point) (hb : ∀ t e', Seeks saved e e' → e'.Prepared sure →
      e'.forest.Reaches (.stack t) → Quest saved sure (body t) e') :
    Quest saved sure (do
      let inner ← bodyIn b i
      modifyStore (·.setPosition inner p.asPosition)
      body inner) e := by
  have hF := hp.steady.forest
  have hc' : (e.store.definitionOf b).inputs[i]? = some comp := by rwa [← definitionOf_forest]
  rcases bodyIn_cases b i e with ⟨hn, f, hru⟩ | ⟨t, hv, hru⟩ | ⟨v, hv, hne, hru⟩
  · -- the block has a value for each of its slots
    rw [slot?, getElem?_eq_none_iff, length_values_of_reached hF hr] at hn
    exact absurd (List.getElem?_eq_some_iff.1 hc').1 hn.not_gt
  · have hsl := (slot?_forest e b i).trans hv
    have ho : t ∉ e.workspace := fun hm => hF.apart t ⟨b, i, hsl⟩ (workspace_subset_roots hm)
    have hs : Seeks saved _ _ := seeks_setPosition ho p
    refine Quest.of_run (n := body t) ?_ hs (hb t _ hs (hp.after hs) ?_)
    · rw [bind_run, hru]
      rfl
    · exact (hs.unfolds hp.steady).reached _ trivial (hr.slot hsl)
  · have hs : Seeks saved _ _ := seeks_openBody hc' hk hv hne p
    refine Quest.of_run (n := body ⟨e.store.allStacks.size⟩) ?_ hs
      (hb _ _ hs (hp.after hs) ?_)
    · rw [bind_run, hru]
      rfl
    · refine ((hs.unfolds hp.steady).reached (.block b) trivial hr).slot (i := i) ?_
      rw [slot?_forest]
      exact slot?_setValue_self (s := (e.store.addStack [] none).2) hv

end Bodies

/-! ## The search -/

/-- A part of the search, from forests with a property. -/
def Searches (saved : Forest → Prop) (sure : Prop) (P : Forest → Prop) (m : Edit α) : Prop :=
  ∀ e : Editor, e.Prepared sure → P e.forest → Quest saved sure m e

/-- A part of the search in the stack with a number. -/
abbrev SearchesIn (saved : Forest → Prop) (sure : Prop) (stackIndex : Nat) (P : Forest → Prop)
    (m : Edit α) : Prop :=
  Searches saved sure (fun F => stackIndex < F.workspace.length ∧ P F) m

/-- A property of forests that opening bodies does not cost. -/
def Lasting (saved : Forest → Prop) (P : Forest → Prop) : Prop :=
  ∀ F F' : Forest, F.Sound → Unfolds saved F F' → P F → P F'

theorem Lasting.seeks (hP : Lasting saved P) (hp : e.Prepared sure) (hs : Seeks saved e e')
    (h : P e.forest) : P e'.forest :=
  hP _ _ hp.steady.forest (hs.unfolds hp.steady) h

theorem Searches.bind (hP : Lasting saved P) (hx : Searches saved sure P x)
    (hf : ∀ a, Searches saved sure P (f a)) : Searches saved sure P (x >>= f) := fun e hp h =>
  (hx e hp h).bind hp fun a e' hs hp' => hf a e' hp' (hP.seeks hp hs h)

theorem Searches.forIn {γ : Type} (hP : Lasting saved P) {f : γ → β → Edit (ForInStep β)} (l : List γ)
    (b : β) (hf : ∀ c ∈ l, ∀ b, Searches saved sure P (f c b)) :
    Searches saved sure P (forIn l b f) := by
  induction l generalizing b with
  | nil => exact fun _ _ _ => .pure _
  | cons c l ih =>
    rw [forIn_cons]
    refine Searches.bind hP (hf c mem_cons_self b) fun r => ?_
    cases r with
    | done b => exact fun _ _ _ => .pure _
    | yield b => exact ih b fun c hc => hf c (mem_cons_of_mem _ hc)

theorem lasting_reaches (hv : v.IsNode) : Lasting saved (·.Reaches v) :=
  fun _ _ _ h hp => h.reached v hv hp

theorem Lasting.and {Q : Forest → Prop} (hP : Lasting saved P) (hQ : Lasting saved Q) :
    Lasting saved fun F => P F ∧ Q F :=
  fun F F' hF h hp => ⟨hP F F' hF h hp.1, hQ F F' hF h hp.2⟩

theorem lasting_definition (b : BlockId) (d : Definition) :
    Lasting saved (·.store.definitionOf b = d) := fun _ _ _ h hd => (h.definition_eq b).trans hd

theorem Lasting.numbered (hP : Lasting saved P) (stackIndex : Nat) :
    Lasting saved fun F => stackIndex < F.workspace.length ∧ P F :=
  Lasting.and (fun _ _ _ h hlt => h.workspace_eq ▸ hlt) hP

/-- The dragged stack is a reporter. -/
def DragsReporter (F : Forest) : Prop :=
  ∃ u first, F.cursor = some u ∧ (F.store.blocksOf u).head? = some first ∧
    (F.store.definitionOf first).blockType = .reporter

theorem lasting_dragsReporter : Lasting saved DragsReporter := by
  rintro F F' hF h ⟨u, first, hu, hf, hr⟩
  have hul := hF.root_lt u (mem_roots.2 (.inr hu))
  refine ⟨u, first, h.cursor_eq.trans hu, ?_, ?_⟩
  · rwa [h.blocksOf_eq u hul]
  · rwa [h.definition_eq]

section Search

variable {nested : BlockId → Num → Num → Edit Unit} {body : StackId → Edit Unit} {stackIndex : Nat}

theorem searches_checkEachSlot (hn : ∀ inner dx dy, SearchesIn saved sure stackIndex
      (fun F => F.Reaches (.block inner) ∧ DragsReporter F) (nested inner dx dy))
    (hbo : ∀ t, SearchesIn saved sure stackIndex (·.Reaches (.stack t)) (body t)) (stack : StackId)
    (id : BlockId) (d : Definition) (held : Rect Num) (dx dy : Num) {slots : List (Rect Num × Nat)}
    (hsl : sure → ∀ p ∈ slots, p.2 < d.inputs.length) :
    SearchesIn saved sure stackIndex
      (fun F => F.Reaches (.block id) ∧ DragsReporter F ∧ F.store.definitionOf id = d)
      (checkEachSlot nested body stack stackIndex id held dx dy slots) := by
  have hP : Lasting saved fun F => stackIndex < F.workspace.length ∧
      F.Reaches (.block id) ∧ DragsReporter F ∧ F.store.definitionOf id = d :=
    ((lasting_reaches (v := .block id) trivial).and (lasting_dragsReporter.and
      (lasting_definition id d))).numbered stackIndex
  induction slots with
  | nil => exact fun _ _ _ => .pure _
  | cons p rest ih =>
    obtain ⟨slot, i⟩ := p
    have ih := ih fun hs p hp => hsl hs p (mem_cons_of_mem _ hp)
    intro e hp h
    have ⟨hin, hr, hdr, hd⟩ := h
    rw [definitionOf_forest] at hd
    have hi : sure → i < (e.store.definitionOf id).inputs.length := fun hs =>
      hd ▸ hsl hs (slot, i) mem_cons_self
    unfold checkEachSlot
    refine .ite (fun _ => ?_) fun _ => ih e hp h
    refine .read (reads_slotValue id i) (fun hs => ?_) fun v hv => ?_
    · have hlt := hi hs
      rw [← length_values_of_reached hp.steady.forest hr] at hlt
      exact .of_ok (slotValue_eq_ok.2 ⟨getElem?_eq_getElem hlt, rfl⟩)
    have hso : e.forest.store.slot? id i = some v := by
      rw [slot?_forest, (slotValue_eq_ok.1 hv).1]
    -- a slot without a block in it is offered, and the search goes on below it if it does not fit
    have ho : ∀ below : Edit PUnit, Quest saved sure below e → Quest saved sure (do
          let c ← slotComponent id i
          if c.kind.fits (← heldFirst).definition.outputType then
            propose {
              stack, stackIndex, blockIndex := some 0, block := some id, joint := .value
              slot := some i, outline := slot.shift dx dy }
          else
            below
            checkEachSlot nested body stack stackIndex id held dx dy rest) e := by
      intro below hbe
      refine .read (reads_slotComponent id i) (fun hs => ?_) fun c hc => ?_
      · exact .of_ok (slotComponent_eq_ok.2 ⟨getElem?_eq_getElem (hi hs), rfl⟩)
      refine hp.heldFirst fun b hb => .ite (fun hfi => ?_) fun _ => ?_
      · obtain ⟨u, first, hu, hf, hre⟩ := hdr
        obtain ⟨u', first', hu', hf', hde⟩ := heldFirst_eq_ok hb
        cases hu.symm.trans hu'
        cases hf.symm.trans hf'
        rw [hde] at hfi
        have hco : (e.forest.store.definitionOf id).inputs[i]? = some c := by
          rw [definitionOf_forest, (slotComponent_eq_ok.1 hc).1]
        exact quest_propose hin (.slot rfl hu hf hre rfl rfl
          (hr.block_lt hp.steady.forest.store) hco hfi)
      · exact hbe.bind hp fun _ e' hse hp' => ih e' hp' (hP.seeks hp hse h)
    cases v with
    | block inner => exact hn inner _ _ e hp ⟨hin, hr.slot hso, hdr⟩
    | stack t => exact ho (body t) (hbo t e hp ⟨hin, hr.slot hso⟩)
    | _ => exact ho (pure ()) (.pure _)

theorem searches_checkBodies
    (hb : ∀ t, SearchesIn saved sure stackIndex (·.Reaches (.stack t)) (body t))
    (id : BlockId) (d : Definition) (place : Point) {inputs : List (Component × Nat)}
    (hi : ∀ p ∈ inputs, d.inputs[p.2]? = some p.1) :
    SearchesIn saved sure stackIndex (fun F => F.Reaches (.block id) ∧ F.store.definitionOf id = d)
      (checkBodies body id place inputs) := by
  have hP : Lasting saved fun F => stackIndex < F.workspace.length ∧
      F.Reaches (.block id) ∧ F.store.definitionOf id = d :=
    ((lasting_reaches (v := .block id) trivial).and (lasting_definition id d)).numbered stackIndex
  induction inputs with
  | nil => exact fun _ _ _ => .pure _
  | cons p rest ih =>
    obtain ⟨c, i⟩ := p
    have ih := ih fun p hp => hi p (mem_cons_of_mem _ hp)
    have hc : d.inputs[i]? = some c := hi (c, i) mem_cons_self
    intro e hp h
    have ⟨hin, hr, hd⟩ := h
    unfold checkBodies
    refine .ite (fun hk => .store ?_) fun _ => ih e hp h
    dsimp only
    rcases hre : (e.store.block id).slotRects[i]? with _ | slot
    · -- a block that was drawn has a rectangle for each slot
      refine ⟨refl e, fun hs => ?_⟩
      rw [getElem?_eq_none_iff, Block.slotRects, length_map,
        (hp.hunting hs).drawn id hr, Definition.countInputs, ← definitionOf_forest, hd] at hre
      exact absurd (List.getElem?_eq_some_iff.1 hc).1 hre.not_gt
    · refine quest_placeBody hp hr (by rwa [hd]) hk _ fun t e1 hs1 hp1 ht => ?_
      have h1 := hP.seeks hp hs1 h
      exact (hb t e1 hp1 ⟨h1.1, ht⟩).bind hp1 fun _ e2 hs2 hp2 =>
        ih e2 hp2 (hP.seeks hp1 hs2 h1)

variable {slots : BlockId → Rect Num → Num → Num → Edit Unit}

theorem searches_checkBlocks (hs : ∀ id held dx dy, SearchesIn saved sure stackIndex
      (fun F => F.Reaches (.block id) ∧ DragsReporter F) (slots id held dx dy))
    (hbd : ∀ t, SearchesIn saved sure stackIndex (·.Reaches (.stack t)) (body t)) (stack : StackId)
    (top : BlockType) (first : BlockId) (rest : List BlockId)
    {blocks : List (BlockId × Nat)} (hbl : ∀ p ∈ blocks, (first :: rest)[p.2]? = some p.1) :
    SearchesIn saved sure stackIndex (fun F => F.Reaches (.stack stack) ∧
        F.store.blocksOf stack = first :: rest ∧ (F.store.definitionOf first).blockType = top)
      (checkBlocks slots body stack stackIndex (rest.length + 1) top blocks) := by
  have hP : Lasting saved fun F => stackIndex < F.workspace.length ∧ F.Reaches (.stack stack) ∧
      F.store.blocksOf stack = first :: rest ∧ (F.store.definitionOf first).blockType = top := by
    refine Lasting.numbered ?_ stackIndex
    rintro F F' hF h ⟨hr, hro, ht⟩
    refine ⟨h.reached _ trivial hr, ?_, ?_⟩
    · rwa [h.blocksOf_eq stack (hF.reached_lt hr)]
    · rwa [h.definition_eq]
  induction blocks with
  | nil => exact fun _ _ _ => .pure _
  | cons p blocks ih =>
    obtain ⟨id, i⟩ := p
    have ih := ih fun p hp => hbl p (mem_cons_of_mem _ hp)
    have hi : (first :: rest)[i]? = some id := hbl (id, i) mem_cons_self
    intro e hp h
    have ⟨hin, hr, hro, ht⟩ := h
    have hid : e.forest.Reaches (.block id) := hr.row (hro ▸ mem_of_getElem? hi)
    rw [blocksOf_forest] at hro
    unfold checkBlocks
    refine hp.heldFirst fun b hb => hp.heldPlace fun held => .store ?_
    refine hp.place hr fun place => .store (.ite (fun hre => ?_) fun _ => ?_)
    · refine hp.heldSize fun size => ?_
      have hdr : DragsReporter e.forest := by
        obtain ⟨u, first, hu, hf, hd⟩ := heldFirst_eq_ok hb
        refine ⟨u, first, hu, hf, ?_⟩
        rw [← hd]
        exact of_decide_eq_true hre
      exact (hs id _ _ _ e hp ⟨hin, hid, hdr⟩).bind hp fun _ e1 hs1 hp1 =>
        ih e1 hp1 (hP.seeks hp hs1 h)
    · refine (quest_checkBelow hp hin held place hr hro hi).bind hp fun _ e1 hs1 hp1 =>
        .ite (fun _ => .pure _) fun _ => ?_
      have h1 := hP.seeks hp hs1 h
      have ⟨hi1, hr1, hrw, ht1⟩ := h1
      rw [blocksOf_forest] at hrw
      rw [definitionOf_forest] at ht1
      have ha : Quest saved sure _ e1 := quest_checkAbove hp1 hi1 held place hr1 hrw hi
      rw [ht1] at ha
      refine ha.bind hp1 fun _ e2 hs2 hp2 => .ite (fun _ => .pure _) fun _ => ?_
      have h2 := hP.seeks hp1 hs2 h1
      have hd : e2.forest.store.definitionOf id = (e.store.block id).definition := by
        rw [(hs2.unfolds hp1.steady).definition_eq, (hs1.unfolds hp.steady).definition_eq,
          definitionOf_forest, definitionOf]
      have hbo := searches_checkBodies hbd id (e.store.block id).definition place
        (fun p hp => mk_mem_zipIdx_iff_getElem?.1 hp) e2 hp2
        ⟨h2.1, h2.2.1.row (h2.2.2.1 ▸ mem_of_getElem? hi), hd⟩
      exact hbo.bind hp2 fun _ e3 hs3 hp3 => ih e3 hp3 (hP.seeks hp2 hs3 h2)

/-- Offering a stack, and the slots of a block, to any depth. -/
theorem searches_checkTo (stackIndex fuel : Nat) :
    (∀ stack held id dx dy, SearchesIn saved sure stackIndex
      (fun F => F.Reaches (.block id) ∧ DragsReporter F)
      (checkSlots stackIndex fuel stack held id dx dy)) ∧
    ∀ stack, SearchesIn saved sure stackIndex (·.Reaches (.stack stack))
      (checkStack stackIndex fuel stack) := by
  induction fuel with
  | zero =>
    constructor
    · intro stack held id dx dy e _ _
      rw [checkSlots]
      exact .pure _
    · intro stack e _ _
      rw [checkStack]
      exact .pure _
  | succ fuel ih =>
    obtain ⟨ihslots, ihstack⟩ := ih
    constructor
    · rintro stack held id dx dy e hp ⟨hi, hr, hd⟩
      rw [checkSlots]
      refine .store (searches_checkEachSlot (ihslots stack held) ihstack stack id
        (e.store.definitionOf id) held dx dy (fun hs p hm => ?_) e hp
        ⟨hi, hr, hd, definitionOf_forest e id⟩)
      have hlt := (mem_zipIdx' hm).1
      rwa [Block.slotRects, length_map, (hp.hunting hs).drawn id hr] at hlt
    · rintro stack e hp ⟨hi, hr⟩
      rw [checkStack]
      refine .store ?_
      rcases hro : e.store.blocksOf stack with _ | ⟨first, rest⟩
      · exact quest_checkEmpty hp hi hr hro
      · refine searches_checkBlocks (fun id held => ihslots stack held id) ihstack stack _
          first rest (fun p hp => ?_) e hp
          ⟨hi, hr, (blocksOf_forest e stack).trans hro, by rw [definitionOf_forest]⟩
        exact mk_mem_zipIdx_iff_getElem?.1 hp

end Search

/-- The whole search, which proposes a place again or none. -/
theorem quest_findCandidate (hs : e.core.Steady)
    (hun : sure → ∀ u, e.cursor = some u → { e with candidate := none }.Hunting) :
    Seeks saved { e with candidate := none } (endState (findCandidate e)) ∧
      (sure → Sure findCandidate e) := by
  have hP : Lasting saved (·.workspace = e.workspace) := fun _ _ _ h hw => h.workspace_eq.trans hw
  have hl : Searches saved sure (·.workspace = e.workspace) (do
      for p in e.workspace.zipIdx do
        checkStack p.2 (2 * (← store).depth) p.1) := by
    refine Searches.bind hP (Searches.forIn hP _ _ fun p hp _ => ?_) fun _ _ _ _ => .pure _
    obtain ⟨stack, i⟩ := p
    obtain ⟨hi, rfl⟩ := List.getElem?_eq_some_iff.1 (List.mk_mem_zipIdx_iff_getElem?.1 hp)
    refine fun e' hp' hw => .store (Quest.bind hp' ((searches_checkTo i _).2 _ e' hp' ⟨?_, .top ?_⟩)
      fun _ _ _ _ => .pure _)
    · rwa [hw]
    · rw [hw]
      exact getElem_mem hi
  have hq : Quest saved sure (if e.cursor.isSome then do
      for p in e.workspace.zipIdx do
        checkStack p.2 (2 * (← store).depth) p.1
      else pure ()) { e with candidate := none } := by
    refine .ite (fun hc => hl _ ⟨hs, fun hsu => ?_⟩ rfl) fun _ => .pure _
    obtain ⟨u, hu⟩ := Option.isSome_iff_exists.1 hc
    exact hun hsu u hu
  exact ⟨hq.seeks, fun hsu f t hf => hq.sure hsu f t hf⟩

/-- The search keeps the editor steady, and its candidate is aimed. -/
theorem seeks_findCandidate (hs : e.core.Steady) :
    Seeks saved { e with candidate := none } (endState (findCandidate e)) :=
  (quest_findCandidate hs fun h : False => h.elim).1

theorem moves_findCandidate : Keeps (Moves saved) findCandidate := by
  constructor
  intro e hs
  have h : Seeks saved _ _ := seeks_findCandidate hs
  exact ⟨h.steady hs, (h.unfolds hs).changes⟩

theorem aiming_findCandidate : Leads (fun e => e.core.Steady) findCandidate fun _ => Editor.Aiming := by
  intro e _ e' hs h
  have hse : Seeks (fun _ => True) _ _ := seeks_findCandidate hs
  rw [h] at hse
  refine hse.aiming hs fun c hc => ?_
  cases hc

/-! ## The passing of time -/

theorem moves_update (dt : Num) : Keeps (Moves saved) (update dt) :=
  keeps_update (fun _ _ _ => .of_core rfl) moves_drawPalette moves_rescaleAll
    (fun t => (depicts_stack t).pictures.aside.moves) (fun _ _ => .of_core rfl)
    moves_findCandidate (fun _ _ => .of_core rfl) dt

theorem aiming_update {dt : Num} {u : Unit} (hs : e.core.Steady) (h : update dt e = .ok u e')
    (hd : e'.dialog = none) : e'.Aiming := by
  by_cases ho : e.dialog = none
  · obtain ⟨e1, e2, e3, e4, hp⟩ := update_cases ho h
    have hm : Moves (fun _ => True) e e3 := hp.moves
    have ha := aiming_findCandidate e3 _ e4 (hm hs).1 hp.finds
    obtain ⟨n, rfl, -⟩ := selectOption_eq_ok hp.selects
    exact ha
  · rw [update_asking ho h] at hd
    exact absurd hd ho

end BlockStudio
