import BlockStudio.Geometry.Point

/-!
# Events

What the user does, and the ticks that drive a running program. Where the mouse is and which keys
are held is not part of an event: it is looked up while the event is handled.
-/

namespace BlockStudio

inductive Event where
  | tick
  | down (button : Int)
  | up (button : Int)
  | motion (by_ : Point)
  | wheel (y : Num)
  /-- A key went down, with the text that it types. -/
  | key (code : Int) (text : String)
  | quit

/-- The keys with a meaning of their own. -/
inductive Key where
  | backspace | enter | zero | o | s | rightShift | leftShift | rightControl | leftControl
  deriving DecidableEq, Repr

def Key.code : Key → Int
  | backspace => 8
  | enter => 13
  | zero => 48
  | o => 111
  | s => 115
  | rightShift => 303
  | leftShift => 304
  | rightControl => 305
  | leftControl => 306

/-- The mouse and the keyboard. -/
structure Devices where
  mouse : Point := ⟨0, 0⟩
  /-- The numbers of the keys that are held down. -/
  held : List Int := []
  deriving Inhabited

namespace Devices

def holds (d : Devices) (k : Key) : Bool :=
  d.held.contains k.code

def setHeld (d : Devices) (code : Int) (pressed : Bool) : Devices :=
  let others := d.held.filter (· != code)
  { d with held := if pressed then code :: others else others }

def control (d : Devices) : Bool :=
  d.holds .leftControl || d.holds .rightControl

def shift (d : Devices) : Bool :=
  d.holds .leftShift || d.holds .rightShift

end Devices

end BlockStudio
