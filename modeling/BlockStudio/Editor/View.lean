import BlockStudio.Editor.State

/-!
# The workspace in the window

The camera maps places in the workspace to places in the window and back. Drawing the workspace
remembers where each stack is in the window; while the zoom moves, surfaces are only scaled and not
drawn again.
-/

namespace BlockStudio

namespace Editor

/-- The place in the window of a place in the workspace. -/
def toView (e : Editor) (p : Point) : Except Fault Point := do
  let zoom ← e.camera.zoom.value
  return ⟨(p.x - (← e.camera.x.value)) * zoom + e.width.half,
    (p.y - (← e.camera.y.value)) * zoom + e.height.half⟩

/-- The place in the workspace of a place in the window. -/
def toWorld (e : Editor) (p : Point) : Except Fault Point := do
  let zoom ← e.camera.zoom.value
  return ⟨(← (p.x - e.width.half).div zoom) + (← e.camera.x.value),
    (← (p.y - e.height.half).div zoom) + (← e.camera.y.value)⟩

/-- The place in the window of the top left corner of the dragged stack. -/
def cursorPlace (e : Editor) : Except Fault Point := do
  let zoom ← e.camera.zoom.value
  return ⟨e.devices.mouse.x - e.grip.x * zoom, e.devices.mouse.y - e.grip.y * zoom⟩

/-- The grip on something at a place in the window that is held at another. -/
def gripAt (e : Editor) (held origin : Point) : Except Fault Point := do
  let zoom ← e.camera.zoom.value
  return ⟨← (held.x - origin.x).div zoom, ← (held.y - origin.y).div zoom⟩

/-- The place of a surface of a stack in the window. -/
def rendering (e : Editor) (stack : StackId) (full : Size) : Except Fault Rendering := do
  let size ← full.scaleBy (← e.camera.zoom.value)
  let p ← e.toView (← (e.store.stack stack).place)
  return { stack, size, rect := ⟨p.x, p.y, size.w, size.h⟩, full }

end Editor

namespace Edit

/-- Draw a stack and find its place in the window. -/
def render (stack : StackId) : Edit Rendering := do
  let full ← sketch (Sketch.stack stack)
  ofExcept ((← get).rendering stack full)

/-- Find the place in the window of a stack that was drawn before. -/
def rescale (i : Nat) (stack : StackId) : Edit Rendering := do
  match (← get).renderings[i]? with
  | none => throw (.outOfRange .list)
  | some none => throw (.noAttribute "NoneType" "orig_surf")
  | some (some r) => ofExcept ((← get).rendering stack r.full)

def setRendering (i : Nat) (r : Rendering) : Edit Unit := do
  if i < (← get).renderings.length then
    modify fun e => { e with renderings := e.renderings.set i (some r) }
  else throw (.outOfRange .assignment)

/-- Find the places of all stacks, unless the workspace has no stack with the number `i`. -/
def refreshAll (again : Nat → StackId → Edit Rendering) (i : Int) : Edit Unit := do
  let workspace := (← get).workspace
  if i < workspace.length then
    for (stack, i) in workspace.zipIdx do
      setRendering i (← again i stack)

/-- Draw all stacks, unless the workspace has no stack with the number `i`. -/
def redraw (i : Int) : Edit Unit :=
  refreshAll (fun _ stack => render stack) i

/-- Scale all stacks to the present zoom, unless the workspace has no stack with the number
`i`. -/
def rescaleAll (i : Int) : Edit Unit :=
  refreshAll rescale i

/-- Take an item out of a list, counted from the back when negative. -/
def takeOut {α : Type} (items : List α) (i : Int) : Edit (List α) :=
  match placeIn items.length i with
  | some k => return items.eraseIdx k
  | none => throw (.outOfRange (if items.isEmpty then .takingEmpty else .taking))

def removeStack (i : Int) : Edit Unit := do
  let workspace ← takeOut (← get).workspace i
  modify fun e => { e with workspace }
  let renderings ← takeOut (← get).renderings i
  modify fun e => { e with renderings }
  redraw (-1)

end Edit

end BlockStudio
