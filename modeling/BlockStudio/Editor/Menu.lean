import BlockStudio.Editor.View

/-!
# Opening menus

A menu for a block offers to delete or to duplicate it; a menu for a slot with the name of a variable
offers the declared variables and dialogs for making, renaming and deleting one.
-/

namespace BlockStudio

namespace MenuOption

/-- What a line stands for: the name of a variable, or the words of an action. -/
def value : MenuOption → Value
  | delete => .text "delete"
  | duplicate => .text "duplicate"
  | createVariable => .text "create variable..."
  | renameVariable => .text "rename variable..."
  | deleteVariable => .text "delete variable..."
  | separator => .text ""
  | varName name => if name.truth then name else .text "variable..."

def text (store : Store) (o : MenuOption) : String :=
  store.plain o.value

end MenuOption

namespace Menu

def isReporter (m : Menu) : Bool :=
  match m.target with
  | .reporter _ => true
  | _ => false

def isVariable (m : Menu) : Bool :=
  match m.target with
  | .varSlot _ => true
  | _ => false

end Menu

namespace Edit

def optionsFor (globals : List Value) : MenuTarget → List MenuOption
  | .varSlot _ =>
    [.createVariable, .renameVariable, .deleteVariable, .separator] ++ globals.map .varName
  | _ => [.delete, .duplicate]

/-- The places of lines below one another, all as wide as the widest. -/
def placeOptions (mouse : Point) (width : Nat) : Nat → List Size → List (Size × Rect Num)
  | _, [] => []
  | y, s :: rest =>
    (s, ⟨mouse.x, (y : Num) + mouse.y, width, s.h⟩) :: placeOptions mouse width (y + s.h) rest

def openMenu (menu : Menu) : Edit Unit := do
  let e ← get
  let options := optionsFor e.globals menu.target
  modify fun e => { e with menu := some menu, options }
  let sizes ← options.mapM fun o =>
    sketch (Typeface.regular.write (o.text e.store) Shape.black)
  let width := sizes.foldl (fun n s => max n s.w) 0
  let mouse := e.devices.mouse
  let height : Nat := sizes.foldl (fun n s => n + s.h) 0
  modify fun e => {
    e with
    optionRects := placeOptions mouse width 0 sizes
    menuRect := ⟨mouse.x, mouse.y, width, height⟩ }

def selectOption : Edit Unit := do
  modify fun e =>
    if e.menu.isSome then
      let mouse := e.devices.mouse
      match e.optionRects.findIdx? fun o => o.2.contains mouse.x mouse.y with
      | some i => { e with selected := i }
      | none => { e with selected := -1 }
    else e

end Edit

end BlockStudio
