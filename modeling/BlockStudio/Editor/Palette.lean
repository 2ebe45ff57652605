import BlockStudio.Editor.State

/-!
# The palette

A strip of coloured dots at the left edge stands for the categories; beside it the palette shows the
blocks of the present category at three quarters of their size. The block that starts a program is
shown but not offered while the workspace has one.
-/

namespace BlockStudio

namespace Editor

def share (e : Editor) (part : Float) : Num :=
  e.width * .float part

/-- The surface behind the blocks of the palette. -/
def paletteSize (e : Editor) : Except Fault Size :=
  Size.make (e.share 0.2) e.height

/-- The surface behind the dots of the categories. -/
def stripSize (e : Editor) : Except Fault Size :=
  Size.make (e.share 0.05) e.height

/-- The middle of the dot of a category, from top to bottom. -/
def dotMiddle (e : Editor) (category : Nat) : Num :=
  e.share 0.06 * .float (category.toFloat + 0.5)

def firstName (e : Editor) (stack : StackId) : Except Fault String :=
  match e.store.blocksOf stack with
  | [] => .error (.outOfRange .list)
  | b :: _ => .ok (e.store.definitionOf b).id

/-- The stacks that start with the block that starts a program. -/
def startStacks (e : Editor) : Except Fault (List StackId) := do
  let named ← e.workspace.mapM fun s => return (s, ← e.firstName s)
  return (named.filter (·.2 = "start")).map (·.1)

end Editor

namespace Edit

/-- Draw the dots and names of the categories. -/
def drawStrip : Edit Unit := do
  let e ← get
  let strip ← ofExcept e.stripSize
  draw (.fill strip (.parts [.int 255, .int 255, .int 255, .int 200]))
  for (c, i) in Catalogue.categories.zipIdx do
    let center : Point := ⟨e.share 0.025, e.dotMiddle i⟩
    draw (.circle strip c.color center (e.share 0.015) 0 {})
    let dark ← ofExcept c.color.outline
    draw (.circle strip dark center (e.share 0.015) Shape.lineWidth {})
    let name ← sketch (Typeface.small.write c.name Shape.black)
    draw (.blit strip name ⟨center.x - (name.w : Num).half,
      center.y + e.share 0.025 - (name.h : Num).half⟩)

/-- Fill the surface behind the blocks of the palette. -/
def clearPalette : Edit Unit := do
  let mask ← ofExcept (← get).paletteSize
  draw (.fill mask (.parts [.int 255, .int 255, .int 255, .int 100]))

/-- Draw blocks of the palette from a height on. -/
def drawPaletteBlocks (mask : Size) : Num → List Definition → Edit Unit
  | _, [] => return
  | y, d :: rest => do
    let full ← sketch (Layout.drawUnfilled d)
    let s ← ofExcept (full.scaleBy (.float 0.75))
    draw (.blit mask s ⟨10, y⟩)
    let e ← get
    let offered ← if d.id = "start" then (·.isEmpty) <$> ofExcept e.startStacks else pure true
    if offered then
      let rect : Rect Num := ⟨10 + e.share 0.05, y, s.w, s.h⟩
      modify fun e => { e with palette := e.palette ++ [⟨d, rect⟩] }
    modify fun e => { e with paletteEnd := y }
    drawPaletteBlocks mask (y + (s.h + 25 : Nat)) rest

def drawPalette : Edit Unit := do
  clearPalette
  modify fun e => { e with palette := [] }
  let e ← get
  match Catalogue.categories[e.category]? with
  | none => return
  | some c =>
    let mask ← ofExcept e.paletteSize
    let line ← sketch (Typeface.small.write c.description c.color)
    draw (.blit mask line ⟨(e.share 0.2 - line.w).half, 10⟩)
    drawPaletteBlocks mask (50 - (← ofExcept e.scroll.value)) c.blocks

end Edit

end BlockStudio
