import BlockStudio.Geometry.Point
import BlockStudio.Language.Store

/-!
# Drawing calls

The picture is made of surfaces of whole size, at least one pixel each way. What is drawn on them is
recorded as strokes, in order. Drawing also remembers in the store where blocks and slots are, so a
sketch is a computation on the store and the record of strokes; when it fails, what was drawn and
remembered before stays.
-/

namespace BlockStudio

/-- The size of a surface in pixels. -/
structure Size where
  w : Nat
  h : Nat
  deriving DecidableEq, Repr, Inhabited

/-- A side of a surface: whole and at least one pixel. -/
def wholeSide (n : Int) : Nat :=
  if 0 < n then n.toNat else 1

/-- A surface of whole size, at least one pixel each way. -/
def Size.whole (w h : Int) : Size :=
  ⟨wholeSide w, wholeSide h⟩

def Size.make (w h : Num) : Except Fault Size := do
  let w ← w.trunc
  let h ← h.trunc
  return .whole w h

def scaleSide (n : Nat) (factor : Num) : Except Fault Nat := do
  return wholeSide (← (Num.int n * factor).trunc)

/-- A surface scaled by a factor, with whole sides. -/
def Size.scaleBy (s : Size) (factor : Num) : Except Fault Size := do
  let w ← scaleSide s.w factor
  let h ← scaleSide s.h factor
  return ⟨w, h⟩

/-- The radii of the corners of a rectangle: one for all, and one for each that is not negative. -/
structure Corners where
  all : Int := 0
  topLeft : Int := -1
  topRight : Int := -1
  bottomLeft : Int := -1
  bottomRight : Int := -1

/-- The quarters of a circle that are drawn; with none marked the circle is whole. -/
structure Quarters where
  topLeft : Bool := false
  topRight : Bool := false
  bottomLeft : Bool := false
  bottomRight : Bool := false

/-- A drawing call; `on` is the size of the surface that is drawn on. -/
inductive Stroke where
  | fill (on : Size) (color : Paint)
  /-- Put another surface onto the surface. -/
  | blit (on source : Size) (at_ : Point)
  | text (points : Nat) (text : String) (color : Paint)
  /-- Draw a rectangle; a width of zero fills it. -/
  | rect (on : Size) (color : Paint) (rect : Rect Num) (width : Nat) (corners : Corners)
  | line (on : Size) (color : Paint) (start stop : Point) (width : Nat)
  /-- Draw a circle; a width of zero fills it. -/
  | circle (on : Size) (color : Paint) (center : Point) (radius : Num) (width : Nat)
    (quarters : Quarters)
  /-- Draw a polygon; a width of zero fills it. -/
  | polygon (on : Size) (color : Paint) (corners : List Point) (width : Nat)

/-- What drawing works on: the blocks, and the strokes made so far. -/
structure Canvas where
  /-- The blocks and stacks, with the places where they were last drawn. -/
  store : Store
  strokes : Array Stroke := #[]
  deriving Inhabited

abbrev Sketch := EStateM Fault Canvas

namespace Sketch

def ofExcept {α : Type} : Except Fault α → Sketch α
  | .ok a => pure a
  | .error e => throw e

def draw (s : Stroke) : Sketch Unit :=
  modify fun c => { c with strokes := c.strokes.push s }

def modifyStore (f : Store → Store) : Sketch Unit :=
  modify fun c => { c with store := f c.store }

/-- Draw on a new canvas and keep what becomes of the store. -/
def onStore {α : Type} (sketch : Sketch α) : EStateM Fault Store α := fun s =>
  match sketch { store := s } with
  | .ok a c => .ok a c.store
  | .error e c => .error e c.store

end Sketch

/-- An exact coordinate as a number: an integer when it is whole. -/
def exactNum (q : Rat) : Num :=
  if q.den = 1 then .int q.num else .float (floatOfRat q)

def pt (x y : Rat) : Point :=
  ⟨exactNum x, exactNum y⟩

def rgb (red green blue : Int) : Paint :=
  .parts [.int red, .int green, .int blue]

/-- The colour of outlines: every part darker by a hundred, down to nothing. -/
def Paint.outline : Paint → Except Fault Paint
  | .parts (r :: g :: b :: _) =>
    let dark (n : Num) : Num := Num.max (n - 100) 0
    .ok (.parts [dark r, dark g, dark b])
  | .parts _ => .error (.outOfRange .tuple)
  | .clear => .error (.notSubscriptable "NoneType")
  | .kind _ => .error (.notSubscriptable "DataType")

end BlockStudio
