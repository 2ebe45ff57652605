import BlockStudio.Canvas.Typeface
import BlockStudio.Event

/-!
# Dialogs

A dialog darkens the window and shows a box with a title, a message and buttons; a prompt has a
field to type in as well. The buttons stand at the bottom right of the box, the first one of the
caller at the left. A click is a mouse button that goes up, and a prompt is confirmed by the enter
key too.
-/

namespace BlockStudio

inductive Button where
  | yes | ok | confirm | no | cancel
  deriving DecidableEq, Repr, Inhabited

namespace Button

def all : List Button := [yes, ok, confirm, no, cancel]

def name : Button → String
  | yes => "YES"
  | ok => "OK"
  | confirm => "CONFIRM"
  | no => "NO"
  | cancel => "CANCEL"

def caption : Button → String
  | ok => "OKAY"
  | b => b.name

def ofName? (s : String) : Option Button :=
  all.find? (·.name = s)

end Button

structure Field where
  rect : Rect Num
  value : String

/-- A box above a darkened window. -/
structure Dialog where
  size : Point
  window : Point
  title : String
  message : String
  /-- The buttons from right to left. -/
  buttons : List Button
  rects : List (Rect Num)
  field : Option Field

/-- Half of a number, as a double. -/
def Num.half (n : Num) : Num :=
  .float (n.toFloat / 2)

namespace Dialog

def accent : Paint := rgb 200 200 255

def ink : Paint := rgb 0 0 0

def boxOrigin (size window : Point) : Point :=
  ⟨(window.x - size.x).half, (window.y - size.y).half⟩

def buttonSize (b : Button) : Size :=
  let text := Typeface.regular.measure b.caption
  ⟨text.w + 40, text.h + 40⟩

/-- Where buttons are in the box, from right to left; `right` is where the first one ends. -/
def placeButtons (height : Num) : Num → List Button → List (Button × Point)
  | _, [] => []
  | right, b :: rest =>
    let s := buttonSize b
    (b, ⟨right - s.w, height - 20 - s.h⟩) :: placeButtons height (right - (s.w + 20 : Nat)) rest

def buttonRect (size window : Point) (b : Button) (corner : Point) : Rect Num :=
  let origin := boxOrigin size window
  ⟨corner.x + origin.x, corner.y + origin.y, (buttonSize b).w, (buttonSize b).h⟩

def rounded (on : Size) (color : Paint) (r : Rect Num) (width : Nat) (radius : Int) :
    Sketch Unit :=
  Sketch.draw (.rect on color r width { all := radius })

def drawButton (box : Size) (b : Button) (corner : Point) : Sketch Unit := do
  let text ← Typeface.regular.write b.caption ink
  let s := buttonSize b
  rounded s accent ⟨0, 0, s.w, s.h⟩ 0 5
  rounded s ink ⟨0, 0, s.w, s.h⟩ 3 5
  Sketch.draw (.blit s text ⟨20, 20⟩)
  Sketch.draw (.blit box s corner)

def titleHeight (title : String) : Nat :=
  (Typeface.big.measure title).h

/-- Draw the box and make the dialog; the buttons are given from left to right. -/
def make (size window : Point) (title message : String) (buttons : List Button) :
    Sketch Dialog := do
  let dark ← Sketch.ofExcept (Size.make window.x window.y)
  Sketch.draw (.fill dark (.parts [.int 0, .int 0, .int 0, .int 200]))
  let box ← Sketch.ofExcept (Size.make size.x size.y)
  let whole : Rect Num := ⟨0, 0, size.x, size.y⟩
  rounded box (rgb 255 255 255) whole 0 10
  let head ← Typeface.big.write title ink
  Sketch.draw (.rect box accent ⟨0, 0, size.x, (40 + head.h : Nat)⟩ 0
    { topLeft := 10, topRight := 10 })
  Sketch.draw (.blit box head ⟨20, 20⟩)
  let body ← Typeface.regular.write message ink
  Sketch.draw (.blit box body ⟨20, (60 + head.h : Nat)⟩)
  let placed := placeButtons size.y (size.x - 20) buttons.reverse
  for (b, corner) in placed do
    drawButton box b corner
  rounded box (rgb 155 155 155) whole 3 10
  return {
    size, window, title, message, buttons := buttons.reverse
    rects := placed.map fun (b, corner) => buttonRect size window b corner
    field := none }

/-- Draw the box with a field to type in and make the prompt. -/
def makePrompt (size window : Point) (title message : String) (buttons : List Button) :
    Sketch Dialog := do
  let d ← make size window title message buttons
  let box ← Sketch.ofExcept (Size.make size.x size.y)
  let rect : Rect Num := ⟨20, (100 + titleHeight title : Nat), size.x - 40, 40⟩
  rounded box (rgb 222 222 255) rect 0 5
  rounded box ink rect 3 5
  return { d with field := some ⟨rect, ""⟩ }

/-- What was typed into the field; nothing when there is none. -/
def value (d : Dialog) : String :=
  (d.field.map Field.value).getD ""

def draw (d : Dialog) (on : Size) : Sketch Unit := do
  let dark ← Sketch.ofExcept (Size.make d.window.x d.window.y)
  let box ← Sketch.ofExcept (Size.make d.size.x d.size.y)
  let origin := boxOrigin d.size d.window
  Sketch.draw (.blit on dark ⟨0, 0⟩)
  Sketch.draw (.blit on box origin)
  match d.field with
  | none => return
  | some f =>
    let text ← Typeface.regular.write f.value ink
    Sketch.draw (.blit on text ⟨origin.x + 25, origin.y + f.rect.y + 5⟩)

def buttonAt? (d : Dialog) (p : Point) : Option Button :=
  ((d.buttons.zip d.rects).find? fun b => b.2.contains p.x p.y).map (·.1)

def retype (d : Dialog) (f : String → String) : Dialog :=
  { d with field := d.field.map fun field => { field with value := f field.value } }

def dropLast (s : String) : String :=
  String.ofList s.toList.dropLast

/-- The dialog after an event, and the button that the event pressed. -/
def handle (d : Dialog) (mouse : Point) : Event → Dialog × Option Button
  | .up _ => (d, d.buttonAt? mouse)
  | .key code text =>
    if d.field.isNone then (d, none)
    else if code = Key.backspace.code then (d.retype dropLast, none)
    else if code = Key.enter.code then (d, some .confirm)
    else (d.retype (· ++ text), none)
  | _ => (d, none)

/-- The dialog after some events, and the buttons that they pressed, each with what was typed by
then. -/
def handleAll (d : Dialog) (mouse : Point) :
    List Event → Dialog × List (Button × Option String)
  | [] => (d, [])
  | e :: rest =>
    let (next, pressed) := d.handle mouse e
    let (last, more) := next.handleAll mouse rest
    (last, (pressed.map fun b => (b, next.field.map (·.value))).toList ++ more)

end Dialog

end BlockStudio
