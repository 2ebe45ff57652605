import BlockStudio.Editor.Handle
import BlockStudio.Editor.Picture

/-!
# A session at the screen

The editor takes three quarters of the screen, and the console to the right of it shows what the
program says. The wheel over the console scrolls it, sideways with a shift key; starting a program
scrolls it back.
-/

namespace BlockStudio

structure Session where
  editor : Editor
  screen : Size
  consoleX : Num
  firstLine : Num

/-- What a frame puts onto the screen. -/
structure Frame where
  console : String
  /-- The surfaces and their places, in order. -/
  blits : List (Size × Point)

abbrev Sitting := EStateM Fault Session

namespace Session

/-- The size of a character of the console. -/
def charSize : Size :=
  Typeface.mono.measure "I"

/-- Where the console begins, from the left. -/
def consoleStart (screen : Size) : Nat :=
  screen.w * 3 / 4

/-- The number of lines that the console has room for. -/
def maxLines (screen : Size) : Nat :=
  screen.h / charSize.h

def shownLines (s : Session) : Except Fault (List String) :=
  match s.firstLine with
  | .int y => .ok ((s.editor.scene.env.output.toList.drop y.toNat).take (maxLines s.screen))
  | .float _ => .error .badOperands

end Session

namespace Sitting

def edit {α : Type} (m : Edit α) : Sitting α := fun s =>
  match m s.editor with
  | .ok a editor => .ok a { s with editor }
  | .error f editor => .error f { s with editor }

def start (screen : Size) (folder : Folder) : Except Fault Session :=
  let blank := Editor.blank (Session.consoleStart screen) screen.h Catalogue.blocks .empty [] folder
  match Edit.setUp blank with
  | .ok _ editor => .ok { editor, screen, consoleX := 0, firstLine := 0 }
  | .error f _ => .error f

def scrollConsole (y : Num) : Sitting Unit := do
  let s ← get
  if s.editor.devices.shift then
    set { s with consoleX := Num.max (s.consoleX - Session.charSize.w * y) 0 }
  else set { s with firstLine := s.firstLine - y }
  modify fun s => { s with firstLine := Num.max s.firstLine 0 }

def handle (ev : Event) : Sitting Unit := do
  let s ← get
  match ev with
  | .wheel y =>
    if s.editor.devices.mouse.x.lt (Session.consoleStart s.screen) then edit (Edit.handle ev)
    else scrollConsole y
  | ev =>
    edit (Edit.handle ev)
    if s.editor.program.isNone then
      modify fun s =>
        if s.editor.program.isSome then { s with firstLine := 0, consoleX := 0 } else s

def present (dt : Num) : Sitting Frame := do
  let screen := (← get).screen
  edit (Edit.draw (.fill screen (rgb 0 0 0)))
  edit (Edit.update dt)
  let s ← get
  match s.shownLines with
  | .error f => throw f
  | .ok lines =>
    let console := "\n".intercalate lines
    let text ← edit (Edit.sketch (Typeface.mono.write console Shape.white))
    let place : Point := ⟨(Session.consoleStart screen + 10 : Nat) - s.consoleX, 10⟩
    edit (Edit.draw (.blit screen text place))
    edit Edit.drawWindow
    match s.editor.windowSize with
    | .error f => throw f
    | .ok window =>
      edit (Edit.draw (.blit screen window ⟨0, 0⟩))
      return { console, blits := [(text, place), (window, ⟨0, 0⟩)] }

/-- Handle the events of a frame up to the one that closes the window; the answer tells whether there
is none. -/
def handleAll : List Event → Sitting Bool
  | [] => return true
  | .quit :: _ => return false
  | ev :: rest => do
    handle ev
    handleAll rest

/-- One frame: handle its events, let time pass and draw the screen. -/
def frame (events : List Event) (dt : Num) : Sitting (Option Frame) := do
  if ← handleAll events then return some (← present dt) else return none

end Sitting

end BlockStudio
