import BlockStudio.Editor.Variables
import BlockStudio.Project.Document

/-!
# Saving and opening projects

Saving writes a compressed file and says so. Opening takes the stacks of the file one after the
other; when something goes wrong on the way a dialog tells it, and what was taken by then stays.
-/

namespace BlockStudio

namespace Edit

/-- Show a dialog as wide as a part of the window and half as high. -/
def showDialog (part : Nat) (title message : String) (buttons : List Button) (purpose : Purpose) :
    Edit Unit := do
  let e ← get
  let d ← sketch (Dialog.make ⟨e.width.floorDiv part, e.height.floorDiv 2⟩ ⟨e.width, e.height⟩
    title message buttons)
  modify fun e => { e with dialog := some (d, purpose) }

/-- Ask for a text in a dialog of half the width and height of the window. -/
def showPrompt (title message : String) (purpose : Purpose) : Edit Unit := do
  let e ← get
  let d ← sketch (Dialog.makePrompt ⟨e.width.floorDiv 2, e.height.floorDiv 2⟩
    ⟨e.width, e.height⟩ title message [.cancel, .confirm])
  modify fun e => { e with dialog := some (d, purpose) }

def showFileTrouble (part : Nat) : Edit Unit :=
  showDialog part "An Error Occurred!"
    "Please make sure the path exists and it's typed correctly!" [.ok] .close

def answerSave (button : Button) (path : String) : Edit Unit := do
  modify fun e => { e with dialog := none }
  if button = .confirm then
    let e ← get
    let text ← ofExcept (projectText e.store e.workspace e.globals)
    match e.scene.folder.write path (.packed text) with
    | .ok folder =>
      set { e with scene := { e.scene with folder } }
      showDialog 2 "Saved!" ("The project is saved to\n" ++ path) [.ok] .close
    | .error _ => showFileTrouble 2

def readStack (json : Json) : Edit StackId := fun e =>
  match Saved.stack e.definitions json e.store with
  | .ok id store => .ok id { e with canvas := { e.canvas with store } }
  | .error f store => .error f { e with canvas := { e.canvas with store } }

/-- Take a saved stack into the workspace as the one with a number. -/
def takeStack (json : Json) (i : Nat) : Edit Unit := do
  let id ← readStack json
  modify fun e => {
    e with workspace := e.workspace ++ [id], renderings := e.renderings ++ [none] }
  redraw i

/-- Take saved stacks into the workspace, numbered from `i` on. -/
def takeStacks : Nat → List Json → Edit Unit
  | _, [] => return
  | i, json :: rest => do
    takeStack json i
    takeStacks (i + 1) rest

/-- Take the stacks and the variables of a project file. -/
def loadProject (path : String) : Edit Unit := do
  let e ← get
  let json ← ofExcept (e.scene.folder.readPacked path >>= projectJson)
  modify fun e => { e with workspace := [], renderings := [] }
  let saved ← ofExcept (json.item "stacks" >>= Json.walk)
  takeStacks 0 saved
  let names ← ofExcept (json.item "globals" >>= Json.walk)
  let names ← ofExcept (names.mapM Json.nameValue)
  modify fun e => { e with globals := names.foldl (fun ns n => insertName n ns) [] }

def answerOpen (button : Button) (path : String) : Edit Unit := do
  modify fun e => { e with dialog := none }
  if button = .confirm then
    tryCatch (loadProject path) fun _ => showFileTrouble 3

end Edit

end BlockStudio
