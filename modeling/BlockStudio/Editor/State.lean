import BlockStudio.Canvas.Layout
import BlockStudio.Dialog
import BlockStudio.Language.Run
import BlockStudio.Motion.Ease

/-!
# The state of the editor

The workspace holds stacks of blocks, seen through a camera. A stack that is dragged is not part of
the workspace. The palette at the left offers the blocks of a category. Beside them the editor
keeps what is going on: a slot that is typed into, a menu, a dialog, a running program.
-/

namespace BlockStudio

/-- Where a stack was last drawn in the window. -/
structure Rendering where
  stack : StackId
  size : Size
  rect : Rect Num
  full : Size

/-- A block that the palette offers. -/
structure PaletteItem where
  definition : Definition
  rect : Rect Num

/-- How a dragged stack would be joined to the workspace. -/
inductive Joint where
  /-- Above a block. -/
  | before
  /-- Below a block, or as the first one of an empty body. -/
  | after
  /-- In a slot. -/
  | value
  deriving DecidableEq, Repr

def Joint.name : Joint → String
  | before => "BEFORE"
  | after => "AFTER"
  | value => "VALUE"

/-- A place where the dragged stack would be joined to the workspace. -/
structure Candidate where
  stack : StackId
  /-- The number of the stack in the workspace that it belongs to. -/
  stackIndex : Nat
  /-- The number of the block in its stack; nothing for an empty body. -/
  blockIndex : Option Nat
  /-- The block; nothing for an empty body. -/
  block : Option BlockId
  joint : Joint
  slot : Option Nat
  outline : Rect Num

/-- A slot of a block in some stack of the workspace. -/
structure Spot where
  block : BlockId
  slot : Nat
  stackIndex : Int

/-- What a menu was opened for. -/
inductive MenuTarget where
  /-- The block with a number in its stack. -/
  | block (index : Nat)
  /-- The reporter in the slot with a number. -/
  | reporter (slot : Nat)
  | varSlot (spot : Spot)

structure Menu where
  stack : StackId
  block : BlockId
  stackIndex : Int
  target : MenuTarget

/-- A line of a menu. -/
inductive MenuOption where
  | delete | duplicate | createVariable | renameVariable | deleteVariable | separator
  | varName (name : Value)

/-- What pressing a button of a dialog does. -/
inductive Purpose where
  | createVariable (spot : Spot) (stackIndex : Int)
  | renameVariable (name : Value)
  | deleteVariable (name : Value)
  | save
  | load
  | close

/-- What the window shows of the workspace. -/
structure Camera where
  /-- What is in the middle, from left to right. -/
  x : Tween Num
  /-- What is in the middle, from top to bottom. -/
  y : Tween Num
  zoom : Tween Num

structure Editor where
  /-- The blocks and stacks, and what was drawn. -/
  canvas : Canvas
  /-- The environment of the running program and the files. -/
  scene : Scene
  /-- The definitions that saved blocks can refer to. -/
  definitions : List Definition
  width : Num
  height : Num
  devices : Devices
  /-- The stacks of the workspace, from back to front. -/
  workspace : List StackId
  /-- Where the stacks were last drawn. -/
  renderings : List (Option Rendering)
  /-- The stack that is dragged. -/
  cursor : Option StackId
  /-- The surface of the stack that was last dragged. -/
  cursorSize : Option Size
  /-- Where the dragged stack is held, from its top left corner. -/
  grip : Point
  camera : Camera
  category : Nat
  scroll : Tween Num
  /-- The top of the last block of the palette. -/
  paletteEnd : Num
  palette : List PaletteItem
  /-- Whether the mouse moves the camera. -/
  panning : Bool
  /-- Where the dragged stack would be joined. -/
  candidate : Option Candidate
  /-- Whether keys go into a slot. -/
  editing : Bool
  /-- The slot that keys go into, or went into last. -/
  edited : Option Spot
  menu : Option Menu
  /-- The lines of the last menu. -/
  options : List MenuOption
  /-- The surfaces and places of the lines of the last menu. -/
  optionRects : List (Size × Rect Num)
  /-- The number of the line under the mouse, or minus one. -/
  selected : Int
  menuRect : Rect Num
  /-- Whether the next mouse button that goes up is passed over. -/
  excuseUp : Bool
  /-- Whether the next mouse button that goes down is passed over. -/
  excuseDown : Bool
  /-- The open dialog and what its buttons do. -/
  dialog : Option (Dialog × Purpose)
  globals : List Value
  program : Option (List Task)

/-- Steps that change the editor and can fail; what was changed before a fault stays. -/
abbrev Edit := EStateM Fault Editor

namespace Editor

def store (e : Editor) : Store :=
  e.canvas.store

def windowSize (e : Editor) : Except Fault Size :=
  Size.make e.width e.height

def mouseInWorkspace (e : Editor) : Bool :=
  (e.width * .float 0.25).lt e.devices.mouse.x

end Editor

namespace Editor

def clearStrokes (e : Editor) : Editor :=
  { e with canvas := { e.canvas with strokes := #[] } }

def putFile (e : Editor) (path : String) (entry : Entry) : Editor :=
  { e with scene := { e.scene with folder := e.scene.folder.put path entry } }

end Editor

namespace Edit

def ofExcept {α : Type} : Except Fault α → Edit α
  | .ok a => pure a
  | .error e => throw e

/-- The stack with a given number, counted from the back when negative. -/
def stackAt (i : Int) : Edit StackId := do
  match itemAt? (← get).workspace i with
  | some id => return id
  | none => throw (.outOfRange .list)

/-- The block at the end of a path through the stack with a given number. -/
def blockAlong (i : Int) (path : List Int) : Edit BlockId := do
  let id ← stackAt i
  match ← ofExcept ((← get).store.follow path (.stack id)) with
  | .block b => return b
  | v => throw (.noAttribute v.kindName "values_rect")

def sketch {α : Type} (s : Sketch α) : Edit α := fun e =>
  match s e.canvas with
  | .ok a canvas => .ok a { e with canvas }
  | .error f canvas => .error f { e with canvas }

def draw (s : Stroke) : Edit Unit :=
  sketch (Sketch.draw s)

def store : Edit Store := do
  return (← get).store

def modifyStore (f : Store → Store) : Edit Unit :=
  sketch (Sketch.modifyStore f)

def addStack (blocks : List BlockId) (position : Option (List Value)) : Edit StackId := do
  let (id, s) := (← store).addStack blocks position
  modifyStore fun _ => s
  return id

def copyBlock (id : BlockId) : Edit BlockId := do
  let (new, s) := (← store).copyBlock id
  modifyStore fun _ => s
  return new

def copyStack (id : StackId) : Edit StackId := do
  let (new, s) := (← store).copyStack id
  modifyStore fun _ => s
  return new

def assign (spot : BlockId) (i : Nat) (v : Value) : Edit Unit := do
  if i < ((← store).block spot).values.length then modifyStore (·.setValue spot i v)
  else throw (.outOfRange .assignment)

def slotValue (block : BlockId) (i : Nat) : Edit Value := do
  match ((← store).block block).values[i]? with
  | some v => return v
  | none => throw (.outOfRange .list)

def slotComponent (block : BlockId) (i : Nat) : Edit Component := do
  match ((← store).definitionOf block).inputs[i]? with
  | some c => return c
  | none => throw (.outOfRange .list)

end Edit

/-! ### Places of stacks -/

/-- A coordinate of a place; only numbers within reach of doubles are good. -/
def Value.coordinate : Value → Except Fault Num
  | .num (.int n) => if (floatOfInt n).isInf then .error .beyondFloat else .ok (.int n)
  | .num n => .ok n
  | .bool b => .ok (.int (if b then 1 else 0))
  | _ => .error .badOperands

def Stack.place (t : Stack) : Except Fault Point :=
  match t.position with
  | none => .error (.notSubscriptable "NoneType")
  | some [] => .error (.outOfRange .tuple)
  | some [x] => x.coordinate >>= fun _ => .error (.outOfRange .tuple)
  | some (x :: y :: _) => do return ⟨← x.coordinate, ← y.coordinate⟩

def Point.asPosition (p : Point) : Option (List Value) :=
  some [.num p.x, .num p.y]

/-- Where the slots of a block were last drawn. The left edge is an integer unless brackets stand
around the block; the top is always a double. -/
def Block.slotRects (b : Block) : List (Rect Num) :=
  b.slots.map fun r =>
    let inBrackets := b.definition.blockType = .reporter ∧ b.definition.outputType = .any
    ⟨if inBrackets then .ofRat r.x else .int r.x.floor, .ofRat r.y, .int r.w.floor,
      .int r.h.floor⟩

end BlockStudio
