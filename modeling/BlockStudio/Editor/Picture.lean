import BlockStudio.Editor.Connect
import BlockStudio.Editor.Palette

/-!
# The picture of the editor

The window shows the stacks, the palette above them, the mark where the dragged stack would be
joined, the dragged stack, the menu and the dialog, and the line with the keys.
-/

namespace BlockStudio

namespace Edit

def keysLine : String :=
  "Save (CTRL-S), Open (CTRL-O), Reset Zoom (CTRL-0), Run (CTRL-ENTER)"

def drawStacks (window : Size) : Edit Unit := do
  for r in (← get).renderings do
    match r with
    | none => throw (.noAttribute "NoneType" "surf")
    | some r =>
      let e ← get
      let place ← ofExcept (e.store.stack r.stack).place
      draw (.blit window r.size (← ofExcept (e.toView place)))

/-- Mark where the dragged stack would be joined: a line between blocks, a frame around a slot. -/
def drawCandidate (window : Size) (c : Candidate) : Edit Unit := do
  let dark ← ofExcept (← heldFirst).definition.color.outline
  let e ← get
  let zoom ← ofExcept e.camera.zoom.value
  let r := c.outline
  let p ← ofExcept (e.toView ⟨r.x, r.y⟩)
  if r.h.eq 0 then
    draw (.line window dark p ⟨p.x + r.w * zoom, p.y⟩ 8)
  else
    draw (.rect window dark ⟨p.x, p.y, r.w * zoom, r.h * zoom⟩ Shape.lineWidth {})

def drawCursor (window : Size) : Edit Unit := do
  let e ← get
  match e.cursorSize with
  | none => throw (.noAttribute "NoneType" "_w")
  | some s =>
    let s ← ofExcept (s.scaleBy (← ofExcept e.camera.zoom.value))
    draw (.blit window s (← ofExcept e.cursorPlace))

/-- Draw the menu; the marked line stands out to the right. -/
def drawMenu (window : Size) : Edit Unit := do
  let e ← get
  let r := e.menuRect
  let frame : Rect Num := ⟨r.x - 8, r.y - 8, r.w + 32, r.h + 16⟩
  draw (.rect window Shape.white frame 0 {})
  draw (.rect window Shape.black frame Shape.lineWidth {})
  for ((s, r), i) in e.optionRects.zipIdx do
    let x := if (i : Int) = e.selected then r.x + 16 else r.x
    draw (.blit window s ⟨x, r.y⟩)

def drawWindow : Edit Unit := do
  let e ← get
  let window ← ofExcept e.windowSize
  draw (.fill window (rgb 60 60 60))
  drawStacks window
  draw (.blit window (← ofExcept e.paletteSize) ⟨e.share 0.05, 0⟩)
  draw (.blit window (← ofExcept e.stripSize) ⟨0, 0⟩)
  match e.candidate with
  | some c => drawCandidate window c
  | none => pure ()
  if e.cursor.isSome then drawCursor window
  if e.menu.isSome then drawMenu window
  match e.dialog with
  | some (d, _) => sketch (d.draw window)
  | none => pure ()
  let line := Typeface.regular.measure keysLine
  draw (.blit window line ⟨e.share 0.25 + 10, e.height - line.h - 10⟩)

end Edit

namespace Editor

/-- The editor of a window before anything was drawn. -/
def blank (width height : Num) (definitions : List Definition) (store : Store)
    (workspace : List StackId) (folder : Folder) : Editor where
  canvas := { store }
  scene := { folder }
  definitions := definitions
  width := width
  height := height
  devices := {}
  workspace := workspace
  renderings := []
  cursor := none
  cursorSize := none
  grip := ⟨0, 0⟩
  camera := {
    x := .rest Ease.outSine 0 (.float 0.5)
    y := .rest Ease.outSine 0 (.float 0.5)
    zoom := .rest Ease.inOutSine 1 (.float 0.5) }
  category := 0
  scroll := .rest Ease.outSine 0 (.float 0.5)
  paletteEnd := 0
  palette := []
  panning := false
  candidate := none
  editing := false
  edited := none
  menu := none
  options := []
  optionRects := []
  selected := 0
  menuRect := ⟨0, 0, 0, 0⟩
  excuseUp := false
  excuseDown := false
  dialog := none
  globals := []
  program := none

end Editor

namespace Edit

/-- Draw what stays the same, and the palette. -/
def setUp : Edit Unit := do
  clearPalette
  drawStrip
  drawPalette
  let _ ← sketch (Typeface.regular.write keysLine Shape.white)

/-- Forget how the stacks look and draw all of them. -/
def drawAfresh : Edit Unit := do
  modify fun e => { e with renderings := e.workspace.map fun _ => none }
  redraw 0

end Edit

end BlockStudio
