import BlockStudio.Proofs.SureUpdate

/-!
# The window can be drawn

Drawing the window records strokes and changes nothing else.  It needs a rendering of each stack, the
first block of a dragged stack that would be joined, the measure of the dragged stack and the lines of
the menu.  All of this is there once time has passed since the last event.
-/

namespace BlockStudio

open Forest Edit Editor Keeps

variable {α : Type} {e e' : Editor}

section Inks

variable (h : e'.clearStrokes = e.clearStrokes)

include h

theorem store_of_clearStrokes : e'.store = e.store := (congrArg Editor.store h :)

theorem Editor.Calm.inks (hc : e.Calm) : e'.Calm :=
  hc.congr (congrArg core h :) (store_of_clearStrokes h) (congrArg eases h :)

end Inks

theorem inks_drawStacks (window : Size) : Inks (drawStacks window) := by
  refine .bind .get fun e => .bind (.forIn _ _ fun r _ _ => ?_) fun _ => .pure _
  split
  · exact .throw_bind _ _
  · refine .bind .get fun _ => .bind (.ofExcept _) fun _ => ?_
    exact .bind (.ofExcept _) fun _ => .bind (inks_draw _) fun _ => .pure _

theorem sure_drawStacks (h : e.Calm) (hs : e.Shown) (window : Size) :
    Sure (drawStacks window) e := by
  refine .step rfl (.bind ?_ fun _ _ _ => .pure _)
  refine .forIn (I := fun e1 => e1.clearStrokes = e.clearStrokes) _ _ rfl
    (fun r hr _ e1 h1 => ?_) fun r _ _ e1 _ e2 h1 hru => ?_
  · obtain ⟨i, hi⟩ := List.getElem?_of_mem hr
    have hlt : i < e.workspace.length :=
      h.steady.pictured.length_eq ▸ (List.getElem?_eq_some_iff.1 hi).1
    obtain ⟨r', hr'⟩ := hs i _ (List.getElem?_eq_getElem hlt)
    cases hi.symm.trans hr'
    have hst := h.steady.pictured.stack_eq i r' hi
    have h1' := h.inks h1
    refine .step rfl (.ofExcept_bind ?_ fun place _ => ?_)
    · rw [store_of_clearStrokes h1]
      exact (h.located _ (List.mem_of_getElem? hst)).place
    · refine .ofExcept_bind (h1'.eased.toView _) fun _ _ => ?_
      exact .bind (.draw _) fun _ _ _ => .pure _
  · refine Eq.trans ?_ h1
    split at hru
    · obtain ⟨_, _, ht, -⟩ := bind_eq_ok.1 hru
      exact absurd ht throw_ne_ok
    · rw [get_bind] at hru
      obtain ⟨_, -, hru⟩ := ofExcept_bind_eq_ok.1 hru
      obtain ⟨_, -, hru⟩ := ofExcept_bind_eq_ok.1 hru
      obtain ⟨_, e3, hd, hru⟩ := bind_eq_ok.1 hru
      obtain ⟨-, rfl⟩ := pure_eq_ok.1 hru
      exact (inks_draw _).ok hd

theorem inks_drawCandidate (window : Size) (c : Candidate) : Inks (drawCandidate window c) := by
  refine .bind reads_heldFirst.keeps fun _ => .bind (.ofExcept _) fun _ => ?_
  refine .bind .get fun _ => .bind (.ofExcept _) fun _ => ?_
  refine .bind (.ofExcept _) fun _ => ?_
  exact .ite (fun _ => inks_draw _) fun _ => inks_draw _

theorem sure_drawCandidate (h : e.Calm) (hc : ∃ t, e.cursor = some t) (window : Size)
    (c : Candidate) : Sure (drawCandidate window c) e := by
  refine (failsOnly_heldFirst_of_row (h.exists_row hc)).bind fun b e1 hr => ?_
  have he1 := reads_heldFirst.ok hr
  obtain ⟨u, first, hu, hf, hde⟩ := heldFirst_eq_ok hr
  have hlt := h.sound.store.mem_blocksOf (List.mem_of_head? hf)
  obtain ⟨dark, hd⟩ := (drawable_of_mem (h.sound.store.known _ hlt)).outline
  rw [hde, hd]
  subst he1
  refine .ofExcept_bind (fun _ h => nomatch h) fun _ _ => .step rfl ?_
  refine .ofExcept_bind h.eased.zoom.value fun _ _ => ?_
  refine .ofExcept_bind (h.eased.toView _) fun _ _ => ?_
  exact .ite (fun _ => .draw _) fun _ => .draw _

theorem inks_drawCursor (window : Size) : Inks (drawCursor window) := by
  refine .bind .get fun e => ?_
  split
  · exact .throw _
  · refine .bind (.ofExcept _) fun _ => .bind (.ofExcept _) fun _ => ?_
    exact .bind (.ofExcept _) fun _ => inks_draw _

theorem sure_drawCursor (he : e.Eased) {size : Size} (hs : e.cursorSize = some size)
    (window : Size) : Sure (drawCursor window) e := by
  refine .step rfl ?_
  rw [hs]
  refine .ofExcept_bind he.zoom.value fun _ _ => ?_
  refine .ofExcept_bind (reckons_scaleBy _ _) fun _ _ => ?_
  exact .ofExcept_bind he.cursorPlace fun _ _ => .draw _

theorem inks_drawMenu (window : Size) : Inks (drawMenu window) := by
  refine .bind .get fun e => .bind (inks_draw _) fun _ => ?_
  refine .bind (inks_draw _) fun _ => .bind (.forIn _ _ fun p _ _ => ?_) fun _ => .pure _
  exact .bind (inks_draw _) fun _ => .pure _

theorem failsOnly_drawMenu {p : Fault → Prop} (window : Size) : FailsOnly p (drawMenu window) e := by
  refine .step rfl (.bind (.draw _) fun _ _ _ => .bind (.draw _) fun _ _ _ => ?_)
  refine .bind (.forIn (I := fun _ => True) _ _ trivial (fun _ _ _ _ _ => ?_)
    fun _ _ _ _ _ _ _ _ => trivial) fun _ _ _ => .pure _
  exact .bind (.draw _) fun _ _ _ => .pure _

theorem strokes_drawDialog (d : Dialog) (window : Size) : Strokes (d.draw window) := by
  unfold Dialog.draw
  refine bind (Strokes.ofExcept _) fun _ => bind (Strokes.ofExcept _) fun _ => ?_
  refine bind (Strokes.draw _) fun _ => bind (Strokes.draw _) fun _ => ?_
  split
  · exact .pure _
  · exact bind (Strokes.write ..) fun _ => Strokes.draw _

theorem sure_dialog (d : Dialog) (window : Size) : Sure (sketch (d.draw window)) e := by
  refine .sketch ?_
  refine .bind (.sketch_ofExcept (Reckons.make _ _)) fun _ _ _ => ?_
  refine .bind (.sketch_ofExcept (Reckons.make _ _)) fun _ _ _ => ?_
  refine .bind (.modify _) fun _ _ _ => .bind (.modify _) fun _ _ _ => ?_
  split
  · exact .pure _
  · refine .bind ?_ fun _ _ _ => .modify _
    exact .bind (.modify _) fun _ _ _ => .pure _

/-- A step that records strokes only, before a step that can be done. -/
theorem Inks.bind {β : Type} {m : Edit α} {f : α → Edit β} (hm : Inks m) (hs : Sure m e')
    (he' : e'.clearStrokes = e.clearStrokes)
    (hf : ∀ a (e1 : Editor), e1.clearStrokes = e.clearStrokes → Sure (f a) e1) : Sure (m >>= f) e' :=
  hs.bind fun a e1 h => hf a e1 ((hm.ok h).trans he')

/-- What lies in front of the stacks is drawn last: the dialog and the line that names the keys. -/
def Edit.drawFront (e : Editor) (window : Size) : Edit Unit := do
  match e.dialog with
  | some (d, _) => sketch (d.draw window)
  | none => pure ()
  let line := Typeface.regular.measure keysLine
  draw (.blit window line ⟨e.share 0.25 + 10, e.height - line.h - 10⟩)

/-- The menu comes before. -/
def Edit.drawMenuAndFront (e : Editor) (window : Size) : Edit Unit := do
  if e.menu.isSome then drawMenu window
  drawFront e window

/-- The dragged stack comes before the menu. -/
def Edit.drawCursorAndFront (e : Editor) (window : Size) : Edit Unit := do
  if e.cursor.isSome then drawCursor window
  drawMenuAndFront e window

theorem inks_drawCursorAndFront (e : Editor) (window : Size) : Inks (drawCursorAndFront e window) := by
  have hf : Inks (drawFront e window) := by
    unfold drawFront
    dsimp only
    split
    · exact bind (strokes_drawDialog _ _).inks fun _ => inks_draw _
    · exact inks_draw _
  have hm : Inks (drawMenuAndFront e window) :=
    .ite (fun _ => .bind (inks_drawMenu _) fun _ => hf) fun _ => hf
  exact .ite (fun _ => .bind (inks_drawCursor _) fun _ => hm) fun _ => hm

theorem sure_drawCursorAndFront (h : e.Calm) (hp : e.Poised) (window : Size)
    (he' : e'.clearStrokes = e.clearStrokes) : Sure (drawCursorAndFront e window) e' := by
  have hf (e1 : Editor) : Sure (drawFront e window) e1 := by
    unfold drawFront
    dsimp only
    split
    · exact (sure_dialog _ _).bind fun _ _ _ => .draw _
    · exact .draw _
  have hm (e1 : Editor) : Sure (drawMenuAndFront e window) e1 :=
    .ite (fun _ => (failsOnly_drawMenu _).bind fun _ e2 _ => hf e2) fun _ => hf e1
  refine .ite (fun hso => .bind ?_ fun _ e2 _ => hm e2) fun _ => hm e'
  obtain ⟨t, ht⟩ := Option.isSome_iff_exists.1 hso
  obtain ⟨size, hs⟩ := hp.measured t ht
  exact sure_drawCursor (h.inks he').eased ((congrArg cursorSize he' :).trans hs) _

theorem inks_drawWindow : Inks drawWindow := by
  refine bind get fun e => bind (ofExcept _) fun window => ?_
  refine .bind (inks_draw _) fun _ => .bind (inks_drawStacks _) fun _ => ?_
  refine .bind (.ofExcept _) fun _ => .bind (inks_draw _) fun _ => ?_
  refine .bind (.ofExcept _) fun _ => .bind (inks_draw _) fun _ => ?_
  dsimp only
  split
  · exact .bind (inks_drawCandidate _ _) fun _ => inks_drawCursorAndFront e window
  · exact inks_drawCursorAndFront e window

/-- The window can be drawn. -/
theorem sure_drawWindow (h : e.Calm) (hs : e.Shown) (hp : e.Poised) : Sure drawWindow e := by
  refine .step rfl ?_
  refine .ofExcept_bind (Reckons.make _ _) fun window _ => ?_
  refine (inks_draw _).bind (.draw _) rfl fun _ e1 h1 => ?_
  have hs1 : e1.Shown := hs.congr (congrArg Editor.workspace h1 :) (congrArg Editor.renderings h1 :)
  refine (inks_drawStacks _).bind (sure_drawStacks (h.inks h1) hs1 _) h1 fun _ e1 h1 => ?_
  refine .ofExcept_bind (Reckons.make _ _) fun _ _ => ?_
  refine (inks_draw _).bind (.draw _) h1 fun _ e1 h1 => ?_
  refine .ofExcept_bind (Reckons.make _ _) fun _ _ => ?_
  refine (inks_draw _).bind (.draw _) h1 fun _ e1 h1 => ?_
  dsimp only
  split
  · rename_i c hc
    obtain ⟨t, ht⟩ := hp.aimed c hc
    have hh : ∃ t, e1.cursor = some t := ⟨t, (congrArg Editor.cursor h1 :).trans ht⟩
    exact (inks_drawCandidate _ c).bind (sure_drawCandidate (h.inks h1) hh _ c) h1 fun _ _ =>
      sure_drawCursorAndFront h hp window
  · exact sure_drawCursorAndFront h hp window h1

end BlockStudio
