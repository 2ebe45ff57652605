import BlockStudio.Editor.Picture
import BlockStudio.Proofs.Steady

/-!
# Steps that move no blocks

Much of what the editor does leaves blocks where they are: it shows dialogs and the palette, fills slots
with typed texts, truth values and names of variables, and lets time pass.
-/

namespace BlockStudio

open Edit Catalogue List Keeps Strokes

variable {α : Type} {saved : Forest → Prop} {e e' : Editor} {b : BlockId} {i : Nat} {name v : Value}
  {text : String} {u : Unit} {dt : Num} {v' : Value} {s : Store}

/-! ## Dialogs -/

theorem strokes_prompt (size window : Point) (title message : String) (buttons : List Button) :
    Strokes (Dialog.makePrompt size window title message buttons) := by
  unfold Dialog.makePrompt
  repeat' first
    | exact dialog ..
    | exact draw _
    | exact ofExcept _
    | exact pure _
    | exact write ..
    | refine bind ?_ fun _ => ?_

/-! ## The palette -/

theorem mem_catalogue {c : Category} {d : Definition} (hc : c ∈ categories)
    (hd : d ∈ c.blocks) : d ∈ blocks :=
  mem_flatMap.2 ⟨c, hc, hd⟩

/-- A step that records strokes and changes nothing else. -/
abbrev Inks (m : Edit α) : Prop := Keeps (Same Editor.clearStrokes) m

theorem Strokes.inks {m : Sketch α} (h : Strokes m) : Inks (sketch m) := by
  refine .sketch h fun e c hc => ?_
  simp [Same, Editor.clearStrokes, hc.1]

theorem inks_draw (s : Stroke) : Inks (draw s) := (Strokes.draw s).inks

/-- The editor without strokes and without what the palette offers. -/
def Editor.offPalette (e : Editor) : Editor :=
  { e.clearStrokes with palette := [], paletteEnd := 0 }

/-- Only the palette changed, and it still offers blocks of the catalogue. -/
def Offers (e e' : Editor) : Prop :=
  e'.offPalette = e.offPalette ∧ ((∀ item ∈ e.palette, item.definition ∈ blocks) →
    ∀ item ∈ e'.palette, item.definition ∈ blocks)

instance : IsPreorder Editor Offers where
  refl _ := ⟨rfl, id⟩
  trans _ _ _ h h' := ⟨h'.1.trans h.1, fun hp => h'.2 (h.2 hp)⟩

theorem Offers.core_eq (h : Offers e e') : e'.core = { e.core with palette := e'.palette } := by
  have := congrArg (fun u : Editor => ({ u.core with palette := e'.palette } : Core)) h.1
  simpa [Editor.core, Editor.forest, Editor.offPalette, Editor.clearStrokes, Editor.store] using this

theorem Offers.forest_eq (h : Offers e e') : e'.forest = e.forest := congrArg Core.forest h.core_eq

theorem Offers.moves (h : Offers e e') : Moves saved e e' := by
  intro hs
  refine ⟨?_, by rw [h.forest_eq]⟩
  rw [h.core_eq]
  exact { hs with palette := h.2 hs.palette }

theorem Inks.offers {m : Edit α} (h : Inks m) : Keeps Offers m := by
  refine h.mono fun e e' hi => ⟨?_, fun hp => ?_⟩
  · exact congrArg (fun u : Editor => ({ u with palette := [], paletteEnd := 0 } : Editor)) hi
  · have hpa : e'.palette = e.palette := (congrArg Editor.palette hi :)
    rwa [hpa]

theorem offers_drawPaletteBlocks (mask : Size) (y : Num) {ds : List Definition}
    (hds : ∀ d ∈ ds, d ∈ blocks) : Keeps Offers (drawPaletteBlocks mask y ds) := by
  induction ds generalizing y with
  | nil => exact .pure _
  | cons d ds ih =>
    have ih := fun y => ih y fun d hd => hds d (mem_cons_of_mem _ hd)
    have ha : ∀ rect : Rect Num, Keeps Offers
        (modify fun e => { e with palette := e.palette ++ [⟨d, rect⟩] } : Edit PUnit) := by
      refine fun rect => .modify fun e => ⟨rfl, fun hp item hi => ?_⟩
      rcases mem_append.1 hi with hi | hi
      · exact hp item hi
      · obtain rfl : item = ⟨d, rect⟩ := by simpa using hi
        exact hds d mem_cons_self
    unfold drawPaletteBlocks
    refine .bind (strokes_drawUnfilled d).inks.offers fun full => ?_
    refine .bind (.ofExcept _) fun s => ?_
    refine .bind (inks_draw _).offers fun _ => .bind .get fun e => ?_
    have hr : ∀ y y', Keeps Offers (do
        modify fun e => { e with paletteEnd := y }
        drawPaletteBlocks mask y' ds) := fun y y' =>
      .bind (.modify fun _ => ⟨rfl, id⟩) fun _ => ih y'
    refine .ite (fun _ => ?_) fun _ => ?_
    · refine .bind (.map (.ofExcept _)) fun offered => ?_
      exact .ite (fun _ => .bind (ha _) fun _ => hr ..) fun _ => hr ..
    · refine .bind (.pure _) fun offered => ?_
      exact .ite (fun _ => .bind (ha _) fun _ => hr ..) fun _ => hr ..

theorem offers_clearPalette : Keeps Offers clearPalette :=
  .bind .get fun _ => .bind (.ofExcept _) fun _ => (inks_draw _).offers

theorem offers_drawPalette : Keeps Offers drawPalette := by
  unfold drawPalette
  refine .bind offers_clearPalette fun _ => ?_
  refine .bind (.modify fun e => ⟨rfl, by simp⟩) fun _ => .bind .get fun e => ?_
  split
  · exact .pure _
  · rename_i c hc
    have hb : ∀ d ∈ c.blocks, d ∈ blocks := fun d => mem_catalogue (mem_of_getElem? hc)
    refine .bind (.ofExcept _) fun mask => ?_
    refine bind (write ..).inks.offers fun line => ?_
    refine .bind (inks_draw _).offers fun _ => .bind (.ofExcept _) fun y => ?_
    exact offers_drawPaletteBlocks mask _ hb

theorem moves_drawPalette : Keeps (Moves saved) drawPalette :=
  offers_drawPalette.mono fun _ _ => Offers.moves

/-! ## Slots -/

theorem slotValue_eq_ok : slotValue b i e = .ok v e' ↔ e.store.slot? b i = some v ∧ e' = e := by
  unfold slotValue
  rw [store_bind, ← Store.slot?]
  cases e.store.slot? b i with
  | none => simp [throw_ne_ok]
  | some w =>
    rw [pure_eq_ok]
    constructor
    · rintro ⟨rfl, rfl⟩
      exact ⟨rfl, rfl⟩
    · rintro ⟨h, rfl⟩
      exact ⟨Option.some.inj h, rfl⟩

theorem slotComponent_eq_ok {c : Component} : slotComponent b i e = .ok c e' ↔
      (e.store.definitionOf b).inputs[i]? = some c ∧ e' = e := by
  unfold slotComponent
  rw [store_bind]
  cases (e.store.definitionOf b).inputs[i]? with
  | none => simp [throw_ne_ok]
  | some w =>
    rw [pure_eq_ok]
    constructor
    · rintro ⟨rfl, rfl⟩
      exact ⟨rfl, rfl⟩
    · rintro ⟨h, rfl⟩
      exact ⟨Option.some.inj h, rfl⟩

theorem reads_store : Reads store := .bind .get fun _ => .pure _

theorem reads_ofExcept (x : Except Fault α) : Reads (ofExcept x) := .ofExcept x

theorem reads_slotValue (b : BlockId) (i : Nat) : Reads (slotValue b i) := by
  unfold slotValue
  refine .bind reads_store fun s => ?_
  split
  · exact .pure _
  · exact .throw _

theorem reads_slotComponent (b : BlockId) (i : Nat) : Reads (slotComponent b i) := by
  unfold slotComponent
  refine .bind reads_store fun s => ?_
  split
  · exact .pure _
  · exact .throw _

theorem literal_lengthen (hv : v.IsNode ∨ v.Literal) (h : v.lengthen text = .ok v') : v'.Literal := by
  cases v with
  | text s =>
    cases h
    trivial
  | list items => exact (hv.elim id id).elim
  | _ => cases h

/-- What a key makes of the value of a slot is typed, or it is the value itself. -/
theorem typed_eq_ok {kind : SlotKind} {code : Int} (hv : v.IsNode ∨ v.Literal)
    (h : v.typed s kind code text = .ok v') : v'.Literal ∨ v' = v := by
  unfold Value.typed at h
  split at h
  · cases h
    exact .inl trivial
  · split at h
    · exact .inl (literal_lengthen hv h)
    · exact .inl (literal_lengthen hv h)
    · split at h
      · cases h
        exact .inl trivial
      · cases h
        exact .inr rfl
    · cases h
      exact .inr rfl

theorem setValue_eq_self (h : s.slot? b i = some v) : s.setValue b i v = s := by
  have hs : (s.block b).values.set i v = (s.block b).values := by
    have hi := (List.getElem?_eq_some_iff.1 h).1
    apply ext_getElem?
    intro j
    by_cases hij : i = j
    · subst hij
      rw [getElem?_set_self hi]
      exact h.symm
    · rw [getElem?_set_ne hij]
  have hb : s.blocks.modify b.index (fun x => { x with values := x.values.set i v }) =
      s.blocks := by
    apply Array.ext
    · simp
    · intro j hj hj'
      rw [Array.getElem_modify]
      split
      case isTrue hbj =>
        have hbl : s.block b = s.blocks[j] := by
          simp [Store.block, Array.getD_eq_getD_getElem?, hbj, hj']
        rw [hbl] at hs
        rw [hs]
      case isFalse => rfl
  unfold Store.setValue Store.modifyBlock
  rw [hb]

theorem assign_self (h : e.store.slot? b i = some v) : assign b i v e = .ok () e := by
  have hi : i < (e.store.block b).values.length := (List.getElem?_eq_some_iff.1 h).1
  unfold assign
  rw [store_bind, if_pos hi, modifyStore_eq_ok, setValue_eq_self h]
  rfl

/-! ## Variables -/

theorem renameEverywhere_eq (old new : Value) (e : Editor) :
    renameEverywhere old new e = (e.workspace.zipIdx.forM fun p => do
      ((← store).blocksOf p.1).forM (renameInBlock old new)
      redraw p.2) e := by
  simp only [← forIn_eq_forM, bind_assoc, renameEverywhere, get_bind]
  exact congrFun (bind_pure _) e

section Rename

variable {R : Editor → Editor → Prop} [IsPreorder Editor R] {new : Value} (old : Value)
  (hnew : ∀ b i (e : Editor), e.store.IsName b i → R e (endState (assign b i new e)))
include hnew

/-- Renaming fills slots for names only. -/
theorem keeps_renameValues {nested : BlockId → Edit Unit} (hn : ∀ id, Keeps R (nested id))
    (reading : BlockId) (i : Nat) (values : List Value) : Keeps R (renameValues nested old new reading i values) := by
  induction values generalizing reading i with
  | nil => exact .pure _
  | cons v rest ih =>
    refine ⟨fun e => ?_⟩
    unfold renameValues
    refine (reads_slotComponent reading i).run_bind (refl e) fun c hc => ?_
    refine run_ite (p := R e) (fun hk => ?_) fun _ => ?_
    · refine reads_store.run_bind (refl e) fun s _ => (reads_ofExcept _).run_bind (refl e) fun same _ => ?_
      refine run_ite (p := R e) (fun _ => run_bind (hnew _ _ e ?_) fun _ e1 _ _ => ?_) fun _ => ?_
      · exact ⟨c, (slotComponent_eq_ok.1 hc).1, hk⟩
      · exact (ih ..).run e1
      · exact (ih ..).run e
    · refine run ?_ e
      split
      · refine bind reads_store.keeps fun s => bind ?_ fun _ => ih ..
        exact forM _ fun id _ => hn id
      · exact bind (hn _) fun _ => ih ..
      · exact ih ..

/-- Renaming in a block keeps what filling slots keeps. -/
theorem keeps_renameInBlockTo (fuel : Nat) (id : BlockId) :
    Keeps R (renameInBlockTo old new fuel id) := by
  induction fuel generalizing id with
  | zero => exact .pure _
  | succ fuel ih => exact .bind reads_store.keeps fun s => keeps_renameValues old hnew ih id 0 _

theorem keeps_renameInBlock (id : BlockId) : Keeps R (renameInBlock old new id) :=
  .bind reads_store.keeps fun _ => keeps_renameInBlockTo old hnew _ id

/-- Renaming everywhere also draws. -/
theorem keeps_renameEverywhere (hr : ∀ i, Keeps R (redraw i)) :
    Keeps R (renameEverywhere old new) := by
  refine ⟨fun e => ?_⟩
  rw [renameEverywhere_eq]
  refine run (forM _ fun p _ => bind reads_store.keeps fun s => ?_) e
  exact bind (forM _ fun b _ => keeps_renameInBlock old hnew b) fun _ => hr _

end Rename

theorem moves_renameEverywhere (old : Value) {new : Value} (hnew : new.Literal) :
    Keeps (Moves saved) (renameEverywhere old new) :=
  keeps_renameEverywhere old (fun _ _ e _ => (moves_assign _ _ hnew).run e) moves_redraw

theorem Moves.globals {globals : List Value}
    (h : e.core.Steady → ∀ v ∈ globals, v.Literal) : Moves saved e { e with globals } := fun hs =>
  ⟨{ hs with globals := h hs }, .refl⟩

theorem forgetName_eq_ok (h : forgetName name e = .ok u e') : hasName e.globals name = true ∧
      e' = { e with globals := e.globals.filter fun n => !n.sameName name } := by
  unfold forgetName at h
  obtain ⟨_, -, h⟩ := ofExcept_bind_eq_ok.1 h
  rw [get_bind] at h
  split at h
  case isTrue hn => exact ⟨hn, (set_eq_ok.1 h).symm⟩
  case isFalse => exact absurd h throw_ne_ok

theorem declareName_eq_ok (h : declareName name e = .ok u e') :
    e' = { e with globals := insertName name e.globals } := by
  unfold declareName at h
  obtain ⟨_, -, h⟩ := ofExcept_bind_eq_ok.1 h
  exact (modify_eq_ok.1 h).symm

theorem mem_insertName {names : List Value} (h : v ∈ insertName name names) : v = name ∨ v ∈ names := by
  induction names with
  | nil => simpa [insertName] using h
  | cons n rest ih =>
    unfold insertName at h
    split at h
    · exact .inr h
    · split at h
      · simpa using h
      · rcases mem_cons.1 h with rfl | h
        · exact .inr mem_cons_self
        · exact (ih h).imp_right (mem_cons_of_mem _)

/-! ## The passing of time -/

theorem advance_bind_eq_ok {w : Tween Num} {f : Tween Num → Edit Unit}
    (h : (advance w dt >>= f) e = .ok u e') : f (w.advance dt) e = .ok u e' := by
  obtain ⟨w', e1, ha, h⟩ := bind_eq_ok.1 h
  obtain ⟨_, -, ha⟩ := ofExcept_bind_eq_ok.1 ha
  obtain ⟨rfl, rfl⟩ := pure_eq_ok.1 ha
  exact h

/-- The camera after some time. -/
def Camera.advance (c : Camera) (dt : Num) : Camera :=
  ⟨c.x.advance dt, c.y.advance dt, c.zoom.advance dt⟩

/-- The editor after the camera and the palette moved. -/
def Editor.moved (e : Editor) (dt : Num) : Editor :=
  { e with camera := e.camera.advance dt, scroll := e.scroll.advance dt }

/-- All stacks are scaled, once for each of them. -/
def Rescales (e e' : Editor) : Prop :=
  (forIn (List.range e.workspace.length) PUnit.unit fun (i : Nat) _ => do
    rescaleAll i
    pure (ForInStep.yield PUnit.unit) : Edit PUnit) e = .ok ⟨⟩ e'

variable {R : Editor → Editor → Prop}

theorem Rescales.of_keeps [IsPreorder Editor R] (hR : ∀ i, Keeps R (rescaleAll i)) (h : Rescales e e') :
    R e e' := by
  unfold Rescales at h
  exact (forIn _ _ fun i _ _ => bind (hR _) fun _ => pure _).ok h

/-- The dragged stack is measured. -/
inductive Measures (e : Editor) : Editor → Prop where
  | nothing (hcursor : e.cursor = none) : Measures e e
  | stack {t : StackId} {size : Size} {e1 : Editor} (hcursor : e.cursor = some t)
    (hsketch : sketch (Sketch.stack t) e = .ok size e1) :
    Measures e { e1 with cursorSize := some size }

/-- What becomes of the editor as time passes. -/
structure Passes (dt : Num) (e e1 e2 e3 e4 e' : Editor) : Prop where
  palette : e1 = e.moved dt ∨ drawPalette (e.moved dt) = .ok () e1
  scaled : e2 = e1 ∨ Rescales e1 e2
  measures : Measures e2 e3
  finds : findCandidate e3 = .ok () e4
  selects : selectOption e4 = .ok () e'

namespace Edit

/-- The dragged stack is measured and a place to join it is looked for. -/
def aim : Edit Unit := do
  match (← get).cursor with
  | some cursor =>
    let s ← sketch (Sketch.stack cursor)
    modify fun e => { e with cursorSize := some s }
  | none => pure ()
  findCandidate
  selectOption

/-- What is done when the camera and the palette have moved. -/
def follow (zoom : Tween Num) : Edit Unit := do
  if !zoom.ended then
    for i in range (← get).workspace.length do
      rescaleAll i
  aim

end Edit

theorem aim_cases (h : aim e = .ok u e') :
    ∃ e3 e4, Measures e e3 ∧ findCandidate e3 = .ok () e4 ∧ selectOption e4 = .ok () e' := by
  unfold aim at h
  rw [get_bind] at h
  rcases hc : e.cursor with _ | cursor <;> simp only [hc] at h
  · obtain ⟨_, e4, hf, h⟩ := bind_eq_ok.1 h
    exact ⟨e, e4, .nothing hc, hf, h⟩
  · obtain ⟨size, e3, hs, h⟩ := bind_eq_ok.1 h
    rw [modify_bind] at h
    obtain ⟨_, e4, hf, h⟩ := bind_eq_ok.1 h
    exact ⟨_, e4, .stack hc hs, hf, h⟩

theorem follow_cases {e1 : Editor} {zoom : Tween Num}
    (hp : e1 = e.moved dt ∨ drawPalette (e.moved dt) = .ok () e1) (h : follow zoom e1 = .ok u e') :
    ∃ e2 e3 e4, Passes dt e e1 e2 e3 e4 e' := by
  unfold follow at h
  split at h
  · rw [get_bind] at h
    obtain ⟨_, e2, hl, h⟩ := bind_eq_ok.1 h
    obtain ⟨e3, e4, hm, hf, hs⟩ := aim_cases h
    exact ⟨e2, e3, e4, hp, .inr hl, hm, hf, hs⟩
  · obtain ⟨e3, e4, hm, hf, hs⟩ := aim_cases h
    exact ⟨e1, e3, e4, hp, .inl rfl, hm, hf, hs⟩

theorem update_cases (hd : e.dialog = none) (h : update dt e = .ok u e') :
    ∃ e1 e2 e3 e4, Passes dt e e1 e2 e3 e4 e' := by
  unfold update at h
  rw [get_bind] at h
  split at h
  case isTrue hs =>
    rw [hd] at hs
    cases hs
  case isFalse =>
  rw [get_bind] at h
  have h := advance_bind_eq_ok h
  rw [modify_bind, get_bind] at h
  have h := advance_bind_eq_ok h
  rw [modify_bind, get_bind] at h
  have h := advance_bind_eq_ok h
  rw [modify_bind, get_bind] at h
  have h := advance_bind_eq_ok h
  rw [modify_bind] at h
  split at h
  · obtain ⟨_, e1, hp, h⟩ := bind_eq_ok.1 h
    exact ⟨e1, follow_cases (.inr hp) h⟩
  · exact ⟨_, follow_cases (.inl rfl) h⟩

/-- No time passes while a dialog is open. -/
theorem update_asking (hd : e.dialog ≠ none) (h : update dt e = .ok u e') : e' = e := by
  unfold update at h
  rw [get_bind, if_pos (Option.isSome_iff_ne_none.2 hd)] at h
  exact (pure_eq_ok.1 h).2.symm

/-- The mark in the menu and nothing else. -/
theorem selectOption_eq_ok (h : selectOption e = .ok u e') :
    ∃ n : Int, e' = { e with selected := n } ∧
      (e.menu.isSome → n = -1 ∨ ∃ k : Nat, n = k ∧ k < e.optionRects.length) := by
  unfold selectOption at h
  rw [← modify_eq_ok.1 h]
  split
  · dsimp only
    split
    · rename_i k hk
      exact ⟨k, rfl, fun _ => .inr ⟨k, rfl, (findIdx?_eq_some_iff_getElem.1 hk).1⟩⟩
    · exact ⟨-1, rfl, fun _ => .inl rfl⟩
  · rename_i hm
    exact ⟨e.selected, rfl, fun h => absurd h hm⟩

section Passes

variable {dt : Num} {e1 e2 e3 e4 : Editor}

theorem Passes.offers (h : Passes dt e e1 e2 e3 e4 e') : Offers (e.moved dt) e1 :=
  h.palette.elim (fun heq => heq ▸ refl _) offers_drawPalette.ok

theorem Passes.repaints (h : Passes dt e e1 e2 e3 e4 e') : Repaints e1 e2 :=
  h.scaled.elim (fun heq => heq ▸ refl _) (Rescales.of_keeps repaints_rescaleAll)

theorem Measures.moves (h : Measures e e') : Moves saved e e' := by
  cases h with
  | nothing => exact refl e
  | @stack t size e1 _ hs =>
    exact .trans ((depicts_stack t).pictures.aside.moves.ok hs) (.of_core rfl)

/-- Up to the search for a place to join. -/
theorem Passes.moves (h : Passes dt e e1 e2 e3 e4 e') : Moves saved e e3 :=
  .trans (.of_core rfl : Moves saved e (e.moved dt))
    (.trans h.offers.moves (.trans h.repaints.moves h.measures.moves))

end Passes

/-- Letting time pass keeps what is kept by moving the camera and the palette, drawing, measuring the
dragged stack, looking for a place to join it and marking a line of the menu. -/
theorem keeps_update [IsPreorder Editor R]
    (hm : ∀ (e : Editor) camera scroll, R e { e with camera, scroll })
    (hp : Keeps R drawPalette) (hr : ∀ i, Keeps R (rescaleAll i))
    (hme : ∀ t, Keeps R (sketch (Sketch.stack t)))
    (hsi : ∀ (e : Editor) cursorSize, R e { e with cursorSize }) (hfi : Keeps R findCandidate)
    (hma : ∀ (e : Editor) selected, R e { e with selected }) (dt : Num) : Keeps R (update dt) := by
  have ha : ∀ w : Tween Num, Keeps R (advance w dt) := fun w =>
    .bind (.ofExcept _) fun _ => .pure _
  have hs : Keeps R selectOption := by
    refine .modify fun e => ?_
    split
    · dsimp only
      split <;> exact hma e _
    · exact refl e
  have hai : Keeps R aim := by
    have hre : Keeps R (do findCandidate; selectOption) := .bind hfi fun _ => hs
    refine .bind .get fun e => ?_
    split
    · exact .bind (hme _) fun _ => .bind (.modify fun e => hsi e _) fun _ => hre
    · exact hre
  have hf : ∀ zoom, Keeps R (follow zoom) := by
    refine fun zoom => .ite (fun _ => .bind .get fun e => ?_) fun _ => hai
    refine .bind (.forIn _ _ fun i _ _ => ?_) fun _ => hai
    exact .bind (hr _) fun _ => .pure _
  unfold update
  refine .bind .get fun e => .ite (fun _ => .pure _) fun _ => ?_
  refine .bind .get fun _ => .bind (ha _) fun x => ?_
  refine .bind (.modify fun e => hm e _ _) fun _ => .bind .get fun _ => ?_
  refine .bind (ha _) fun y => .bind (.modify fun e => hm e _ _) fun _ => ?_
  refine .bind .get fun _ => .bind (ha _) fun zoom => ?_
  refine .bind (.modify fun e => hm e _ _) fun _ => .bind .get fun _ => ?_
  refine .bind (ha _) fun scroll => .bind (.modify fun e => hm e _ _) fun _ => ?_
  exact .ite (fun _ => .bind hp fun _ => hf zoom) fun _ => hf zoom

theorem inks_drawStrip : Inks drawStrip := by
  unfold drawStrip
  refine .bind .get fun e => .bind (.ofExcept _) fun strip => ?_
  refine .bind (inks_draw _) fun _ => .bind (.forIn _ _ fun p _ _ => ?_) fun _ => .pure _
  refine .bind (inks_draw _) fun _ => .bind (.ofExcept _) fun dark => ?_
  refine .bind (inks_draw _) fun _ => ?_
  refine bind (write ..).inks fun name => ?_
  exact .bind (inks_draw _) fun _ => .pure _

theorem offers_setUp : Keeps Offers setUp := by
  refine .bind offers_clearPalette fun _ => .bind inks_drawStrip.offers fun _ => ?_
  refine .bind offers_drawPalette fun _ => ?_
  exact bind (write ..).inks.offers fun _ => pure _

end BlockStudio
