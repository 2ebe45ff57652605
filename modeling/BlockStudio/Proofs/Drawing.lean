import BlockStudio.Proofs.BareStore
import BlockStudio.Proofs.Outcome
import BlockStudio.Editor.Handle

/-!
# What drawing leaves alone

Strokes do not touch the blocks, and drawing a block or a stack changes only the places that the
blocks remember.  So the editor is the same before and after drawing, apart from places and strokes;
drawing the workspace changes the renderings besides.
-/

namespace BlockStudio

open Layout Edit Keeps

variable {α : Type} {nested : BlockId → Sketch Size} {m : Sketch α}

/-! ## Strokes -/

/-- The same blocks and stacks, and every stroke that there was. -/
def Canvas.Adds (c c' : Canvas) : Prop := c'.store = c.store ∧ ∀ s ∈ c.strokes, s ∈ c'.strokes

instance : IsPreorder Canvas Canvas.Adds where
  refl _ := ⟨rfl, fun _ => id⟩
  trans _ _ _ h h' := ⟨h'.1.trans h.1, fun s hs => h'.2 s (h.2 s hs)⟩

/-- A sketch that leaves the blocks and stacks as they are. -/
abbrev Strokes {α : Type} (m : Sketch α) : Prop := Keeps Canvas.Adds m

namespace Strokes

variable {α : Type}

theorem draw (s : Stroke) : Strokes (Sketch.draw s) :=
  ⟨fun _ => ⟨rfl, fun _ h => Array.mem_push.2 (.inl h)⟩⟩

theorem ofExcept (x : Except Fault α) : Strokes (Sketch.ofExcept x) := by cases x <;> exact ⟨refl⟩

theorem write (f : Typeface) (text : String) (color : Paint) : Strokes (f.write text color) :=
  .bind (draw _) fun _ => .pure _

theorem edge (on : Size) (color : Paint) (x1 y1 x2 y2 : Rat) :
    Strokes (Shape.edge on color x1 y1 x2 y2) :=
  .bind (ofExcept _) fun _ => draw _

/-- The shapes around a surface. -/
theorem shapes (inner : Size) (color : Paint) : Strokes (Shape.boolean inner color) ∧
    Strokes (Shape.number inner color) ∧ Strokes (Shape.any inner color) ∧
    Strokes (Shape.text inner color) := by
  refine ⟨?_, ?_, ?_, ?_⟩
  all_goals
    repeat' first
      | exact edge ..
      | exact draw _
      | exact ofExcept _
      | exact .pure _
      | refine .bind ?_ fun _ => ?_

theorem wrap (d : Definition) (inner : Size) : Strokes (Layout.wrap d inner) := by
  unfold Layout.wrap
  split
  · exact (shapes ..).2.2.2
  · exact (shapes ..).2.1
  · exact (shapes ..).2.2.1
  · exact (shapes ..).1
  all_goals
    repeat' first
      | exact edge ..
      | exact draw _
      | exact .pure _
      | refine .bind ?_ fun _ => ?_

theorem fieldOf (shown : String) (least : Nat) (color : Paint) :
    Strokes (Shape.fieldOf shown least color) :=
  .bind (write ..) fun _ => .bind (draw _) fun _ => .bind (draw _) fun _ => .pure _

theorem variableInput (store : Store) (v : Value) (color : Paint) :
    Strokes (Shape.variableInput store v color) :=
  .bind (write ..) fun _ => .bind (draw _) fun _ => .bind (draw _) fun _ =>
    .bind (ofExcept _) fun _ => .bind (draw _) fun _ => (shapes ..).2.2.2

theorem drawInput {R : Canvas → Canvas → Prop} [IsPreorder Canvas R] {v : Value}
    (hR : ∀ c c', c.Adds c' → R c c') (hn : ∀ id, v = .block id → Keeps R (nested id))
    (kind : SlotKind) (color : Paint) : Keeps R (Layout.drawInput nested kind color v) := by
  unfold Layout.drawInput
  refine .bind .get fun c => ?_
  split
  · exact (variableInput ..).mono hR
  · exact hn _ rfl
  · exact .mono (.bind (fieldOf ..) fun _ => (shapes ..).2.1) hR
  · exact .mono (.bind (fieldOf ..) fun _ => (shapes ..).2.2.1) hR
  · exact .mono (.bind (fieldOf ..) fun _ => (shapes ..).2.2.2) hR
  · exact .mono (.bind (fieldOf ..) fun _ => (shapes ..).1) hR
  · exact .pure _

theorem dialog (size window : Point) (title message : String) (buttons : List Button) :
    Strokes (Dialog.make size window title message buttons) := by
  unfold Dialog.make
  repeat' first
    | exact draw _
    | exact ofExcept _
    | exact .pure _
    | exact write ..
    | refine .forIn _ _ fun _ _ _ => ?_
    | refine .bind ?_ fun _ => ?_

end Strokes

/-! ## Blocks and stacks -/

/-- A sketch that changes nothing of the blocks and stacks but the places of blocks. -/
abbrev Depicts {α : Type} (m : Sketch α) : Prop := Keeps (Same fun c : Canvas => c.store.undrawn) m

theorem Strokes.depicts (h : Strokes m) : Depicts m :=
  h.mono fun _ _ h => congrArg Store.undrawn h.1

section Layers

variable {R : Canvas → Canvas → Prop} [IsPreorder Canvas R]

section

variable (hR : ∀ c c', c.Adds c' → R c c')
include hR

theorem keeps_drawLayers {body : Option StackId → Sketch Size} (hn : ∀ id, Keeps R (nested id))
    (hb : ∀ id, Keeps R (body id)) (color : Paint) (components : List Component)
    (values : List Value) (current : Layer) :
    Keeps R (drawLayers nested body color components values current) := by
  induction components generalizing values current with
  | nil => exact .pure _
  | cons c rest ih =>
    unfold drawLayers
    split
    · exact bind ((Strokes.write ..).mono hR) fun _ => ih ..
    · exact .throw _
    · refine bind get fun _ => bind ((Strokes.ofExcept _).mono hR) fun stack => ?_
      refine .bind (hb stack) fun inner => ?_
      refine .bind (.mono ?_ hR) fun _ => .bind (ih ..) fun _ => .pure _
      exact bind (Strokes.draw _) fun _ => bind (Strokes.draw _) fun _ => pure _
    · exact bind (Strokes.drawInput hR (fun id _ => hn id) ..) fun _ => ih ..
    · exact bind (Strokes.drawInput hR (fun id _ => hn id) ..) fun _ => ih ..

theorem keeps_assemble (d : Definition) (layers : List Layer)
    {remember : List (Rect Rat) → Sketch Unit}
    (hr : Keeps R (remember (slotRects d (contentHeight layers)
      (placeLayers (if d.blockType = .reporter then 0 else 16) 4 layers)))) :
    Keeps R (assemble d layers remember) := by
  unfold assemble
  refine .ite (fun _ => .throw_bind ..) fun _ => ?_
  refine bind ((Strokes.draw _).mono hR) fun _ => bind hr fun _ => ?_
  refine bind (forIn _ _ fun _ _ _ => ?_) fun _ => (Strokes.wrap ..).mono hR
  exact bind ((Strokes.draw _).mono hR) fun _ => pure _

theorem keeps_assembleStack (parts : List (α × BlockType × Size))
    {remember : α → Rect Int → Sketch Unit} (hr : ∀ a rect, Keeps R (remember a rect)) :
    Keeps R (assembleStack parts remember) := by
  unfold assembleStack
  refine .bind (.forIn _ _ fun p _ _ => ?_) fun _ => .pure _
  obtain ⟨⟨a, t, size⟩, y⟩ := p
  exact bind (hr ..) fun _ => bind ((Strokes.draw _).mono hR) fun _ => .pure _

end

end Layers

theorem strokes_drawEllipsis : Strokes drawEllipsis :=
  .bind (keeps_drawLayers (fun _ _ h => h) (fun _ => .pure _) (fun _ => .pure _) ..)
    fun _ => .bind (keeps_assemble (fun _ _ h => h) _ _ (.pure _))
      fun _ => keeps_assembleStack (fun _ _ h => h) _ fun _ _ => .pure _

theorem strokes_drawUnfilled (d : Definition) : Strokes (drawUnfilled d) :=
  .bind (keeps_drawLayers (fun _ _ h => h) (fun _ => .pure _) (fun _ => strokes_drawEllipsis) ..)
    fun _ => keeps_assemble (fun _ _ h => h) _ _ (.pure _)

/-- Draw components whose blocks and bodies are nested to a depth of at most `fuel`. -/
abbrev Layout.layersTo (fuel : Nat) :=
  drawLayers (drawBlockTo fuel) fun | none => drawEllipsis | some body => drawStackTo fuel body

/-- What drawing to a depth keeps. -/
structure DrawsTo (R : Canvas → Canvas → Prop) (fuel : Nat) : Prop where
  adds : ∀ c c', c.Adds c' → R c c'
  block : ∀ id, Keeps R (drawBlockTo fuel id)
  stack : ∀ id, Keeps R (drawStackTo fuel id)

section DrawsTo

variable {R : Canvas → Canvas → Prop} [IsPreorder Canvas R]

theorem DrawsTo.layers {fuel : Nat} (h : DrawsTo R fuel) {color : Paint} {components : List Component}
    {values : List Value} {current : Layer} :
    Keeps R (layersTo fuel color components values current) := by
  refine keeps_drawLayers h.adds h.block (fun body => ?_) ..
  cases body with
  | none => exact strokes_drawEllipsis.mono h.adds
  | some body => exact h.stack body

/-- What is kept by remembering places and by drawing a block, given how what stands in it is drawn. -/
theorem drawsTo (hR : ∀ c c', c.Adds c' → R c c') (hr : ∀ id rect,
      Keeps R (Sketch.modifyStore (·.modifyBlock id fun b => { b with rect })))
    (hb : ∀ fuel id, DrawsTo R fuel → Keeps R (drawBlockTo (fuel + 1) id)) (fuel : Nat) :
    DrawsTo R fuel := by
  induction fuel with
  | zero => exact ⟨hR, fun _ => .pure _, fun _ => .pure _⟩
  | succ fuel ih =>
    refine ⟨hR, fun id => hb fuel id ih, fun id => ?_⟩
    unfold drawStackTo
    refine .bind .get fun c => .bind (.mapM _ fun b _ => ?_) fun parts => ?_
    · exact .bind (ih.block b) fun _ => .bind .get fun _ => .pure _
    · exact keeps_assembleStack hR _ hr

end DrawsTo

theorem depicts_modifyBlock (id : BlockId) {f : Block → Block} (hf : ∀ b, (f b).bare = b.bare) :
    Depicts (Sketch.modifyStore (·.modifyBlock id f)) :=
  .modify fun c => c.store.undrawn_modifyBlock id hf

theorem same_undrawn {c c' : Canvas} (h : c.Adds c') :
    Same (fun c : Canvas => c.store.undrawn) c c' :=
  congrArg Store.undrawn h.1

/-- Drawing a block or a stack, to any depth, changes only places. -/
theorem depicts_drawTo (fuel : Nat) : DrawsTo (Same fun c : Canvas => c.store.undrawn) fuel := by
  refine drawsTo (fun _ _ => same_undrawn) (fun id _ => depicts_modifyBlock id fun _ => rfl) ?_ fuel
  intro fuel id ih
  unfold drawBlockTo
  refine .bind .get fun c => ?_
  refine .bind ih.layers fun layers => ?_
  refine .bind (keeps_assemble ih.adds _ _ ?_) fun s => ?_
  · exact depicts_modifyBlock id fun _ => rfl
  · exact .bind (depicts_modifyBlock id fun _ => rfl) fun _ => .pure _

theorem depicts_stack (id : StackId) : Depicts (Sketch.stack id) :=
  .bind .get fun _ => (depicts_drawTo _).stack id

/-! ## The editor -/

/-- The editor without strokes and without the places of blocks. -/
def Editor.bare (e : Editor) : Editor := { e with canvas := { store := e.store.undrawn } }

/-- The editor without strokes, places and renderings. -/
def Editor.unseen (e : Editor) : Editor := { e.bare with renderings := [] }

/-- A step that changes nothing but strokes and places. -/
abbrev Pictures {α : Type} (m : Edit α) : Prop := Keeps (Same Editor.bare) m

/-- A step that changes nothing but strokes, places and renderings. -/
abbrev Displays {α : Type} (m : Edit α) : Prop := Keeps (Same Editor.unseen) m

theorem Pictures.displays {m : Edit α} (h : Pictures m) : Displays m :=
  h.part (fun e : Editor => { e with renderings := [] }) fun _ => rfl

theorem Depicts.pictures (h : Depicts m) : Pictures (sketch m) := by
  refine .sketch h fun e c hc => ?_
  have hc : c.store.undrawn = e.store.undrawn := hc
  simp [Same, Editor.bare, Editor.store, hc]

theorem Strokes.pictures (h : Strokes m) : Pictures (sketch m) := h.depicts.pictures

theorem pictures_render (stack : StackId) : Pictures (render stack) :=
  .bind (depicts_stack stack).pictures fun _ => .bind .get fun _ => .ofExcept _

variable {R : Editor → Editor → Prop} [IsPreorder Editor R]

theorem keeps_rescale (i : Nat) (stack : StackId) : Keeps R (rescale i stack) := by
  unfold rescale
  refine .bind .get fun e => ?_
  split
  · exact .throw _
  · exact .throw _
  · exact .bind .get fun _ => .ofExcept _

theorem displays_setRendering (i : Nat) (r : Rendering) : Displays (setRendering i r) :=
  .bind .get fun _ => .ite (fun _ => .modify fun _ => rfl) fun _ => .throw _

theorem keeps_refreshAll {again : Nat → StackId → Edit Rendering} (ha : ∀ i stack, Keeps R (again i stack))
    (hs : ∀ i r, Keeps R (setRendering i r)) (i : Int) : Keeps R (refreshAll again i) := by
  unfold refreshAll
  refine .bind .get fun e => .ite (fun _ => ?_) fun _ => .pure _
  refine .bind (.forIn _ _ fun p _ _ => ?_) fun _ => .pure _
  exact .bind (ha ..) fun _ => .bind (hs ..) fun _ => .pure _

theorem displays_redraw (i : Int) : Displays (redraw i) :=
  keeps_refreshAll (fun _ stack => (pictures_render stack).displays) displays_setRendering i

theorem displays_rescaleAll (i : Int) : Displays (rescaleAll i) :=
  keeps_refreshAll keeps_rescale displays_setRendering i

end BlockStudio
