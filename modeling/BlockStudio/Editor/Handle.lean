import BlockStudio.Editor.Action
import BlockStudio.Editor.Connect
import BlockStudio.Editor.Palette
import BlockStudio.Editor.Pick
import BlockStudio.Editor.Typing

/-!
# Events and the passing of time

`Edit.handle` is what the editor does on an event, `Edit.update` what it does as time passes. An open
dialog takes all events and stops the time.
-/

namespace BlockStudio

/-- How a program that stops early is told. -/
def Exit.report : Exit → List String
  | .fault .ended | .fault .exhausted | .quit => ["", "Program finished."]
  | .fault f => ["", "Program encountered an error.", f.message]
  | .breakLoop | .continueLoop | .outOfFuel => ["", "Program encountered an error.", ""]

def Environment.sayAll (env : Environment) (lines : List String) : Environment :=
  lines.foldl Environment.say env

namespace Edit

/-! ### Running programs -/

def sayAll (lines : List String) : Edit Unit :=
  modify fun e => { e with scene := { e.scene with env := e.scene.env.sayAll lines } }

def stepProgram (tasks : List Task) : Edit Unit := do
  let e ← get
  match Run.step e.store .generous tasks e.scene with
  | .ok (some (_, tasks)) scene => set { e with scene, program := some tasks }
  | .ok none scene =>
    set { e with scene, program := none }
    sayAll ["", "Program finished."]
  | .error exit scene =>
    set { e with scene, program := none }
    sayAll exit.report

/-- Stop the running program, or start the first stack that begins with a start. -/
def toggleProgram : Edit Unit := do
  let e ← get
  if e.program.isSome then
    set { e with program := none }
    sayAll ["", "Program stopped."]
  else
    match ← ofExcept e.startStacks with
    | [] => return
    | stack :: _ =>
      set { e with scene := { e.scene with env := {} }, program := some (Run.program stack) }

/-! ### The mouse -/

def showCategory (i : Nat) : Edit Unit := do
  modify fun e => { e with category := i, scroll := e.scroll.resetTo 0 }
  drawPalette

/-- The category whose dot is at the height of the mouse. -/
def categoryAt (e : Editor) : Option Nat :=
  (List.range Catalogue.categories.length).find? fun i =>
    let middle := e.dotMiddle i
    (middle - e.share 0.015).le e.devices.mouse.y && e.devices.mouse.y.le (middle + e.share 0.015)

def takeFromPalette : Edit Unit := do
  let e ← get
  let mouse := e.devices.mouse
  match e.palette.find? fun item => item.rect.contains mouse.x mouse.y with
  | none => return
  | some item =>
    let d := item.definition
    let (id, s) := (← store).addBlock d (List.replicate d.countInputs .none)
    modifyStore fun _ => s
    let cursor ← addStack [id] none
    modify fun e => {
      e with
      cursor := some cursor
      grip := ⟨mouse.x - item.rect.x, mouse.y - item.rect.y⟩ }

/-- Click with the left button beside the workspace. -/
def clickPalette : Edit Unit := do
  let e ← get
  if e.devices.mouse.x.lt (e.share 0.05) then
    match categoryAt e with
    | some i => showCategory i
    | none => return
  else if e.devices.mouse.x.lt (e.share 0.25) then takeFromPalette

def handleDown (button : Int) : Edit Unit := do
  let e ← get
  if e.excuseDown then set { e with excuseDown := false }
  else
    match e.menu, decide (e.selected ≠ -1) with
    | some m, true =>
      chooseOption m
      modify fun e => { e with menu := none, editing := false }
    | _, _ =>
      set { e with editing := false, menu := none }
      if e.mouseInWorkspace then
        if button = 2 then modify fun e => { e with panning := true }
        else if button = 1 then clickWorkspace
        else if button = 3 then rightClickWorkspace
      else if button = 1 then clickPalette

def handleUp (button : Int) : Edit Unit := do
  drawPalette
  let e ← get
  if e.excuseUp then set { e with excuseUp := false }
  else
    if button = 2 then modify fun e => { e with panning := false }
    if button = 1 then
      match e.cursor with
      | none => return
      | some cursor =>
        if e.mouseInWorkspace then dropCursor cursor
        modify fun e => { e with cursor := none }

/-- The mouse moves by a distance: while panning the camera goes the other way. -/
def handleMotion (d : Point) : Edit Unit := do
  let e ← get
  if e.panning then
    let x ← ofExcept do
      return (← e.camera.x.value) - (← d.x.div (← e.camera.zoom.value))
    modify fun e => { e with camera := { e.camera with x := e.camera.x.resetTo x } }
    let y ← ofExcept do
      return (← e.camera.y.value) - (← d.y.div (← e.camera.zoom.value))
    modify fun e => { e with camera := { e.camera with y := e.camera.y.resetTo y } }

def clamp (n low high : Num) : Num :=
  Num.min (Num.max n low) high

/-- Change the zoom by a fifth for each notch of the wheel. -/
def wheelZoom (y : Num) : Edit Unit := do
  let zoom := (← get).camera.zoom
  let zoom ← ofExcept (zoom.headFor (zoom.target + y * .float 0.2))
  let zoom := { zoom with target := clamp zoom.target (.float 0.2) 2 }
  modify fun e => { e with camera := { e.camera with zoom } }

/-- Move a coordinate of the camera against the wheel. -/
def wheelAxis (e : Editor) (axis : Tween Num) (y : Num) : Except Fault (Tween Num) := do
  axis.headFor ((← axis.value) - (← (y * 100).div (← e.camera.zoom.value)))

/-- Scroll the palette against the wheel, as far as its last block. -/
def wheelPalette (y : Num) : Edit Unit := do
  let e ← get
  let scroll ← ofExcept (e.scroll.headFor ((← ofExcept e.scroll.value) - y * 200))
  modify fun e => {
    e with scroll := { scroll with target := clamp scroll.target 0 (e.paletteEnd - 50) } }

def handleWheel (y : Num) : Edit Unit := do
  let e ← get
  if !e.panning then
    if e.devices.control then wheelZoom y
    else if e.mouseInWorkspace then
      if e.devices.shift then
        let x ← ofExcept (wheelAxis e e.camera.x y)
        modify fun e => { e with camera := { e.camera with x } }
      else
        let y ← ofExcept (wheelAxis e e.camera.y y)
        modify fun e => { e with camera := { e.camera with y } }
    else wheelPalette y

/-! ### The keyboard -/

def handleCommand (code : Int) : Edit Unit := do
  if code = Key.s.code then
    showPrompt "Save project" "Please enter the file to save to:" .save
  else if code = Key.o.code then
    showPrompt "Open project" "This will erase everything! Please enter the file to open from:" .load
  else if code = Key.zero.code then
    let zoom ← ofExcept ((← get).camera.zoom.headFor 1)
    modify fun e => { e with camera := { e.camera with zoom } }
  else if code = Key.enter.code then toggleProgram

def handleKey (code : Int) (text : String) : Edit Unit := do
  let e ← get
  match e.editing, e.edited with
  | true, some spot => typeKey spot code text
  | _, _ => if e.devices.control then handleCommand code

/-! ### Events and time -/

def handle (ev : Event) : Edit Unit := do
  let e ← get
  match e.dialog with
  | some (d, purpose) => handleDialog d purpose ev
  | none =>
    match ev with
    | .tick =>
      match e.program with
      | some tasks => stepProgram tasks
      | none => return
    | .down button => handleDown button
    | .up button => handleUp button
    | .motion d => handleMotion d
    | .wheel y => handleWheel y
    | .key code text => handleKey code text
    | .quit => return

def advance (w : Tween Num) (dt : Num) : Edit (Tween Num) := do
  let w := w.advance dt
  let _ ← ofExcept w.value
  return w

def update (dt : Num) : Edit Unit := do
  if (← get).dialog.isSome then return
  let x ← advance (← get).camera.x dt
  modify fun e => { e with camera := { e.camera with x } }
  let y ← advance (← get).camera.y dt
  modify fun e => { e with camera := { e.camera with y } }
  let zoom ← advance (← get).camera.zoom dt
  modify fun e => { e with camera := { e.camera with zoom } }
  let scroll ← advance (← get).scroll dt
  modify fun e => { e with scroll }
  if !scroll.ended then drawPalette
  if !zoom.ended then
    for i in List.range (← get).workspace.length do
      rescaleAll i
  match (← get).cursor with
  | some cursor =>
    let s ← sketch (Sketch.stack cursor)
    modify fun e => { e with cursorSize := some s }
  | none => pure ()
  findCandidate
  selectOption

end Edit

end BlockStudio
