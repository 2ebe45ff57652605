import BlockStudio.Editor.Files
import BlockStudio.Editor.Menu

/-!
# Choosing from menus and answering dialogs

Deleting the first block of a stack in the workspace deletes the stack, and duplicating it duplicates
the stack; any other block stands for itself. What is duplicated hangs on the mouse at once, so the
click that chose it is passed over.
-/

namespace BlockStudio

/-- The number in its stack or block of what a menu was opened for. -/
def MenuTarget.number? : MenuTarget → Option Nat
  | .block i => some i
  | .reporter slot => some slot
  | .varSlot _ => none

namespace Edit

/-- Whether a menu was opened for a whole stack of the workspace. -/
def menuForStack (m : Menu) : Edit Bool := do
  if m.target.number? = some 0 then
    match itemAt? (← get).workspace m.stackIndex with
    | some stack => return stack == m.stack && !m.isReporter
    | none => throw (.outOfRange .list)
  else return false

def removeBlock (stack : StackId) (i : Nat) : Edit Unit := do
  let row ← takeOut ((← store).blocksOf stack) i
  modifyStore (·.editRow stack fun _ => row)

def deleteTarget (m : Menu) : Edit Unit := do
  if ← menuForStack m then
    removeStack ((← get).workspace.findIdx (· == m.stack) : Nat)
  else
    match m.target with
    | .reporter slot =>
      assign m.block slot .none
      redraw m.stackIndex
    | .block i =>
      removeBlock m.stack i
      redraw m.stackIndex
    | .varSlot _ => throw .badOperands

/-- Let a stack of copies hang on the mouse, held where the menu was opened. -/
def hang (cursor : StackId) (origin : Point) : Edit Unit := do
  modify fun e => { e with cursor := some cursor }
  let origin ← ofExcept ((← get).toView origin)
  modify fun e => { e with excuseUp := true, excuseDown := true }
  let e ← get
  let grip ← ofExcept (e.gripAt ⟨e.menuRect.x, e.menuRect.y⟩ origin)
  modify fun e => { e with grip }

def duplicateTarget (m : Menu) : Edit Unit := do
  if ← menuForStack m then
    let cursor ← copyStack m.stack
    hang cursor (← ofExcept ((← store).stack m.stack).place)
  else
    match m.target with
    | .reporter slot =>
      match ← slotValue m.block slot with
      | .block id =>
        let cursor ← addStack [← copyBlock id] none
        let e ← get
        hang cursor (← ofExcept (e.toWorld e.devices.mouse))
      | v => throw (.noAttribute v.kindName "copy")
    | _ =>
      let cursor ← addStack [← copyBlock m.block] none
      let rect := ((← store).block m.block).rect
      let place ← ofExcept ((← store).stack m.stack).place
      hang cursor ⟨rect.x + place.x, rect.y + place.y⟩

/-- The slot that a menu for a variable was opened for. -/
def menuSpot (m : Menu) : Edit Spot :=
  match m.target with
  | .varSlot spot => return spot
  | _ => throw (.notSubscriptable "int")

/-- Do what the marked line of a menu says. -/
def chooseOption (m : Menu) : Edit Unit := do
  let e ← get
  let some option := itemAt? e.options e.selected | throw (.outOfRange .list)
  match option with
  | .delete => deleteTarget m
  | .duplicate => duplicateTarget m
  | .varName _ =>
    let spot ← menuSpot m
    assign spot.block spot.slot option.value
    redraw m.stackIndex
  | .createVariable =>
    showPrompt "Create Global Variable"
      "This variable will be accessible to all blocks. Enter variable name:"
      (.createVariable (← menuSpot m) m.stackIndex)
  | .renameVariable =>
    let spot ← menuSpot m
    let name ← slotValue spot.block spot.slot
    showPrompt "Rename Variable" "Enter new variable name:" (.renameVariable name)
  | .deleteVariable =>
    let spot ← menuSpot m
    let name ← slotValue spot.block spot.slot
    showDialog 2 "Delete Variable" "Are you sure you want to delete this variable?" [.no, .yes]
      (.deleteVariable name)
  | .separator => return

/-- Do what a button of a dialog stands for. -/
def answerDialog (d : Dialog) (purpose : Purpose) (button : Button) : Edit Unit :=
  match purpose with
  | .createVariable spot stackIndex => answerCreate button d.value spot stackIndex
  | .renameVariable name => answerRename button name (some d.value)
  | .deleteVariable name => answerRename button name none
  | .save => answerSave button d.value
  | .load => answerOpen button d.value
  | .close => modify fun e => { e with dialog := none }

def handleDialog (d : Dialog) (purpose : Purpose) (ev : Event) : Edit Unit := do
  let (d, pressed) := d.handle (← get).devices.mouse ev
  modify fun e => { e with dialog := some (d, purpose) }
  match pressed with
  | some button => answerDialog d purpose button
  | none => return

end Edit

end BlockStudio
