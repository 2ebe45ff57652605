import BlockStudio.Canvas.Typeface
import BlockStudio.Language.Show
import BlockStudio.Text.Capital

/-!
# Shapes around blocks and inputs

Each function takes the surface with the contents, draws the shape around it and gives the new
surface: notches of statements, caps and hats, points of truth values, round ends of numbers,
rounded corners of texts and brackets of any value.
-/

namespace BlockStudio

namespace Shape

/-- The distance between the parts of a block. -/
def padding : Nat := 8

/-- The least width of the contents of a block. -/
def leastWidth : Nat := 30

/-- The width of the notch between blocks and its distance from the left. -/
def notch : Nat := 16

def lineWidth : Nat := 3

def white : Paint := rgb 255 255 255

def black : Paint := rgb 0 0 0

def edge (on : Size) (color : Paint) (x₁ y₁ x₂ y₂ : Rat) : Sketch Unit := do
  let dark ← Sketch.ofExcept color.outline
  Sketch.draw (.line on dark (pt x₁ y₁) (pt x₂ y₂) lineWidth)

def box (on : Size) (color : Paint) (x y w h : Rat) : Sketch Unit :=
  Sketch.draw (.rect on color ⟨exactNum x, exactNum y, exactNum w, exactNum h⟩ 0 {})

def blit (on source : Size) (x y : Rat) : Sketch Unit :=
  Sketch.draw (.blit on source (pt x y))

/-- Lines along the top and the bottom of a surface. -/
def topDownOutline (s : Size) (color : Paint) : Sketch Unit := do
  edge s color 0 0 s.w 0
  edge s color 0 (s.h - 1) s.w (s.h - 1)

def topNotch (s : Size) (color : Paint) : Sketch Unit := do
  edge s color 0 0 16 0
  edge s color 16 0 16 8
  edge s color 16 8 32 8
  edge s color 32 8 32 0
  edge s color 32 0 s.w 0

/-- The peg under a block whose body ends at `bottom`. -/
def bottomPeg (s : Size) (color : Paint) (bottom : Nat) : Sketch Unit := do
  edge s color 0 bottom 16 bottom
  edge s color 16 bottom 16 (s.h - 1)
  edge s color 16 (s.h - 1) 32 (s.h - 1)
  edge s color 32 (s.h - 1) 32 bottom
  edge s color 32 bottom s.w bottom

/-- The shape of a block that ends a stack. -/
def cap (inner : Size) (color : Paint) : Sketch Size := do
  let s : Size := ⟨inner.w, inner.h + 8⟩
  box s color 0 0 16 8
  box s color 32 0 inner.w 8
  blit s inner 0 8
  edge s color 0 (s.h - 1) s.w (s.h - 1)
  edge s color 0 0 0 (s.h - 1)
  edge s color (s.w - 1) 0 (s.w - 1) (s.h - 1)
  topNotch s color
  return s

/-- The shape of a block that begins a stack. -/
def hat (inner : Size) (color : Paint) : Sketch Size := do
  let s : Size := ⟨inner.w, inner.h + 40⟩
  let bottom := inner.h + 32
  box s color 16 bottom 16 8
  box s color 0 0 s.w 32
  blit s inner 0 32
  edge s color 0 0 s.w 0
  edge s color 0 0 0 (bottom - 1)
  edge s color (s.w - 1) 0 (s.w - 1) (bottom - 1)
  bottomPeg s color bottom
  return s

def statement (inner : Size) (color : Paint) : Sketch Size := do
  let s : Size := ⟨inner.w, inner.h + 16⟩
  let bottom := inner.h + 8
  box s color 0 0 16 8
  box s color 32 0 inner.w 8
  box s color 16 bottom 16 8
  blit s inner 0 8
  edge s color 0 0 0 (bottom - 1)
  edge s color (s.w - 1) 0 (s.w - 1) (bottom - 1)
  topNotch s color
  bottomPeg s color bottom
  return s

/-- The shape of a reporter that gives nothing: a red frame. -/
def unknown (inner : Size) : Sketch Size := do
  Sketch.draw (.rect inner (rgb 255 0 0) ⟨0, 0, inner.w, inner.h⟩ 6 {})
  return inner

/-- Pointed ends, for truth values. -/
def boolean (inner : Size) (color : Paint) : Sketch Size := do
  let d : Rat := inner.h
  let r := d / 2
  topDownOutline inner color
  let s : Size := ⟨inner.w + inner.h, inner.h⟩
  let w : Rat := s.w
  Sketch.draw (.polygon s color [pt r 0, pt 0 r, pt r d] 0)
  Sketch.draw (.polygon s color [pt (w - r) 0, pt w r, pt (w - r) d] 0)
  edge s color r 0 0 r
  edge s color 0 (r + 1) r d
  edge s color (w - r) 0 (w - 1) r
  edge s color w r (w - r) d
  blit s inner r 0
  return s

/-- A circle or quarters of one, filled or as an outline. -/
def disc (on : Size) (color : Paint) (x y r : Rat) (width : Nat) (quarters : Quarters) :
    Sketch Unit :=
  Sketch.draw (.circle on color (pt x y) (exactNum r) width quarters)

def leftHalf : Quarters := { topLeft := true, bottomLeft := true }

def rightHalf : Quarters := { topRight := true, bottomRight := true }

/-- Round ends, for numbers. -/
def number (inner : Size) (color : Paint) : Sketch Size := do
  let r : Rat := (inner.h : Rat) / 2
  topDownOutline inner color
  let s : Size := ⟨inner.w + inner.h, inner.h⟩
  disc s color r r r 0 leftHalf
  disc s color (s.w - r) r r 0 rightHalf
  let dark ← Sketch.ofExcept color.outline
  disc s dark r r r lineWidth leftHalf
  disc s dark (s.w - r) r r lineWidth rightHalf
  blit s inner r 0
  return s

/-- Brackets, for any value. -/
def any (inner : Size) (color : Paint) : Sketch Size := do
  let s : Size := ⟨inner.w + 32, inner.h⟩
  let w : Rat := s.w
  let h : Rat := s.h
  let top : Rat := ((inner.h : Rat) - 16) / 2
  let bottom := h - top
  box s color 0 top 8 16
  box s color (w - 8) top 8 16
  box s color 8 0 8 h
  box s color (w - 16) 0 8 h
  blit s inner 16 0
  edge s color 8 0 (w - 8) 0
  edge s color 8 (h - 1) (w - 8) (h - 1)
  edge s color 0 top 8 top
  edge s color (w - 8) top w top
  edge s color 0 bottom 8 bottom
  edge s color (w - 8) bottom w bottom
  edge s color 8 0 8 top
  edge s color 0 top 0 bottom
  edge s color 8 bottom 8 h
  edge s color (w - 9) 0 (w - 9) top
  edge s color (w - 1) top (w - 1) bottom
  edge s color (w - 9) bottom (w - 9) h
  return s

/-- The four rounded corners of a text, filled or as outlines. -/
def textCorners (s : Size) (color : Paint) (w h r : Rat) (width : Nat) : Sketch Unit := do
  disc s color r r r width { topLeft := true }
  disc s color r (h - r) r width { bottomLeft := true }
  disc s color (w + r) r r width { topRight := true }
  disc s color (w + r) (h - r) r width { bottomRight := true }

/-- Rounded corners, for texts. -/
def text (inner : Size) (color : Paint) : Sketch Size := do
  let w : Rat := inner.w
  let h : Rat := inner.h
  let r := h / 4
  topDownOutline inner color
  let s : Size := ⟨wholeSide (w + r * 2).floor, inner.h⟩
  textCorners s color w h r 0
  box s color 0 r r (r * 2 + 1)
  box s color (w + r) r r (r * 2 + 1)
  let dark ← Sketch.ofExcept color.outline
  textCorners s dark w h r lineWidth
  edge s color 0 r 0 (h - r)
  edge s color (w + r * 2 - 1) r (w + r * 2 - 1) (h - r)
  blit s inner r 0
  return s

/-! ### Inputs with a value typed in -/

/-- A text on a coloured field at least `least` wide. -/
def fieldOf (shown : String) (least : Nat) (color : Paint) : Sketch Size := do
  let t ← Typeface.regular.write shown black
  let s : Size := ⟨max t.w least, t.h + 8⟩
  Sketch.draw (.fill s color)
  blit s t 0 4
  return s

/-- A truth value, green or red. -/
def booleanInput (store : Store) (v : Value) : Sketch Size := do
  let color := if v.truth then rgb 100 255 100 else rgb 255 100 100
  boolean (← fieldOf (upperText (store.plain v)) 0 color) color

def textInput (store : Store) (v : Value) : Sketch Size := do
  text (← fieldOf (store.plain v) 24 white) white

def anyInput (store : Store) (v : Value) : Sketch Size := do
  any (← fieldOf (store.plain v) 24 white) white

def numberInput (store : Store) (v : Value) : Sketch Size := do
  number (← fieldOf (store.plain v) 0 white) white

/-- The name of a variable with a triangle in the outline colour of the block. -/
def variableInput (store : Store) (v : Value) (blockColor : Paint) : Sketch Size := do
  let shown := match v with
    | .none => "variable..."
    | v => store.plain v
  let t ← Typeface.regular.write shown black
  let s : Size := ⟨t.w + 32, t.h + 8⟩
  Sketch.draw (.fill s white)
  blit s t 0 4
  let x : Rat := t.w + 16
  let y : Rat := ((8 : Rat) + t.h) / 2
  let dark ← Sketch.ofExcept blockColor.outline
  Sketch.draw (.polygon s dark [pt (x - 4) (y - 4), pt (x + 4) (y - 4), pt x (y + 4)] 0)
  text s white

end Shape

end BlockStudio
