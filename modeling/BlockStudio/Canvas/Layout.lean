import BlockStudio.Canvas.Shape

/-!
# The layout of blocks and stacks

The components of a block stand side by side in layers, and a body is a layer of its own. Layers
stand below one another, and a part is centred in the height of its layer. The shape around the
layers depends on the type of the block and on what it gives.

The blocks of a stack stand below one another; the peg of a block reaches into the notch of the
next one. Drawing a block remembers where its slots are, drawing a stack where its blocks are.
-/

namespace BlockStudio

/-- A component as it was drawn. -/
structure Part where
  /-- The surface that shows the component. -/
  size : Size
  /-- Whether the component is a slot. -/
  isInput : Bool
  deriving DecidableEq, Repr

/-- Parts that stand side by side. -/
abbrev Layer := List Part

namespace Layer

/-- The width of a layer, with a gap between neighbours. -/
def width (l : Layer) : Nat :=
  l.foldl (fun n p => n + p.size.w) 0 + Shape.padding * (l.length - 1)

/-- The height of a layer: that of its highest part. -/
def height (l : Layer) : Nat :=
  l.foldl (fun n p => max n p.size.h) 0

end Layer

/-- A part and its place on the contents of the block. -/
structure Placed where
  part : Part
  x : Rat
  y : Rat

namespace Layout

/-- Place the parts of a layer of the given height from left to right. -/
def placeLayer (y : Rat) (height : Nat) : Rat → Layer → List Placed
  | _, [] => []
  | x, p :: rest =>
    ⟨p, x, y + ((height : Rat) - p.size.h) / 2⟩ ::
      placeLayer y height (x + p.size.w + Shape.padding) rest

def placeLayers (left : Rat) : Rat → List Layer → List Placed
  | _, [] => []
  | y, l :: rest =>
    placeLayer y l.height left l ++ placeLayers left (y + l.height + Shape.padding) rest

/-- The width of the contents of a block: its widest layer, or the least width. -/
def contentWidth (layers : List Layer) : Nat :=
  layers.foldl (fun n l => max n l.width) Shape.leastWidth

/-- The height of the contents of a block: its layers and the gaps around them. -/
def contentHeight (layers : List Layer) : Nat :=
  layers.foldl (fun n l => n + l.height) 0 + Shape.padding * layers.length

/-- The distance from the top of a block to the top of its contents. For a reporter it is half a
gap, though its contents begin at the top. -/
def topPadding : BlockType → Nat
  | .cap | .statement => 8
  | .hat => 32
  | .reporter => 4

/-- The distance from the left of a block to the left of its contents, as slots count it. -/
def leftPadding (d : Definition) (height : Int) : Int :=
  match d.blockType, d.outputType with
  | .reporter, .number | .reporter, .boolean => height.fdiv 2
  | .reporter, .text => height.fdiv 4
  | .reporter, .any => 12
  | _, _ => 0

/-- Where a placed part is, relative to the block. -/
def slotRect (d : Definition) (height : Nat) (p : Placed) : Rect Rat :=
  ⟨p.x + leftPadding d height, p.y + topPadding d.blockType, p.part.size.w, p.part.size.h⟩

def slotRects (d : Definition) (height : Nat) (placed : List Placed) : List (Rect Rat) :=
  (placed.filter fun p => p.part.isInput).map (slotRect d height)

/-- Draw the shape of a block around its contents. -/
def wrap (d : Definition) (inner : Size) : Sketch Size :=
  match d.blockType, d.outputType with
  | .reporter, .text => Shape.text inner d.color
  | .reporter, .number => Shape.number inner d.color
  | .reporter, .any => Shape.any inner d.color
  | .reporter, .boolean => Shape.boolean inner d.color
  | .reporter, .nil => Shape.unknown inner
  | .cap, _ => Shape.cap inner d.color
  | .hat, _ => Shape.hat inner d.color
  | .statement, _ => Shape.statement inner d.color

def flush (current : Layer) : List Layer :=
  if current.isEmpty then [] else [current]

/-- Draw a slot with a value. -/
def drawInput (nested : BlockId → Sketch Size) (kind : SlotKind) (color : Paint) (v : Value) :
    Sketch Size := do
  let store := (← get).store
  match kind, v with
  | .varName, v => Shape.variableInput store v color
  | _, .block id => nested id
  | .number, v => Shape.numberInput store v
  | .any, v => Shape.anyInput store v
  | .text, v => Shape.textInput store v
  | .boolean, v => Shape.booleanInput store v
  | _, _ => return ⟨1, 1⟩

/-- Put the surface of a body onto a field of the colour of the block. -/
def drawBody (color : Paint) (inner : Size) : Sketch Size := do
  let s : Size := ⟨inner.w + 16, inner.h + 8⟩
  Sketch.draw (.fill s color)
  Shape.blit s inner 16 0
  return s

/-- The stack that a slot for a body holds; nothing when it is unfilled or empty. -/
def bodyOf (store : Store) : Value → Except Fault (Option StackId)
  | .none => .ok none
  | .stack id => .ok (if (store.blocksOf id).isEmpty then none else some id)
  | v => .error (.noAttribute v.kindName "blocks")

/-- Draw components in order, in layers. Each slot takes the next value. -/
def drawLayers (nested : BlockId → Sketch Size) (body : Option StackId → Sketch Size)
    (color : Paint) : List Component → List Value → Layer → Sketch (List Layer)
  | [], _, current => return flush current
  | c :: rest, values, current => do
    match c.kind, values with
    | .label, _ =>
      let s ← Typeface.regular.write (c.text.getD "None") Shape.black
      drawLayers nested body color rest values (current ++ [⟨s, false⟩])
    | _, [] => throw (.outOfRange .list)
    | .statement, v :: values =>
      let stack ← Sketch.ofExcept (bodyOf (← get).store v)
      let s ← drawBody color (← body stack)
      let below ← drawLayers nested body color rest values []
      return flush current ++ [⟨s, true⟩] :: below
    | .varName, v :: values =>
      let s ← drawInput nested .varName color v
      drawLayers nested body color rest values (current ++ [⟨s, true⟩])
    | kind, v :: values =>
      let v := match v with
        | .none => c.default
        | v => v
      let s ← drawInput nested kind color v
      drawLayers nested body color rest values (current ++ [⟨s, true⟩])

/-- Draw the layers of a block and the shape around them; `remember` is told where the slots
are. -/
def assemble (d : Definition) (layers : List Layer) (remember : List (Rect Rat) → Sketch Unit) :
    Sketch Size := do
  if layers.isEmpty then throw .emptyLayout
  let isReporter := d.blockType = .reporter
  let height := contentHeight layers
  let s : Size := ⟨contentWidth layers + if isReporter then 0 else 32, height⟩
  Sketch.draw (.fill s d.color)
  let placed := placeLayers (if isReporter then 0 else 16) 4 layers
  remember (slotRects d height placed)
  for p in placed do
    Shape.blit s p.part.size p.x p.y
  wrap d s

/-- How far the next block moves up into a block of a type. -/
def overlap : BlockType → Nat
  | .hat | .statement => 8
  | .cap | .reporter => 0

/-- The tops of blocks of the given types and sizes in a stack, from the first one on. -/
def tops : Int → List (BlockType × Size) → List Int
  | _, [] => []
  | y, (t, s) :: rest => y :: tops (y + s.h - overlap t) rest

/-- The bottom of the last block of a stack. -/
def bottom : Int → List (BlockType × Size) → Int
  | y, [] => y
  | y, [(_, s)] => y + s.h
  | y, (t, s) :: rest => bottom (y + s.h - overlap t) rest

def stackSize (parts : List (BlockType × Size)) : Size :=
  .whole (parts.foldl (fun n p => max n p.2.w) 0 : Nat) (bottom 0 parts)

/-- Put drawn blocks onto the surface of their stack; `remember` is told where each one is. -/
def assembleStack {α : Type} (parts : List (α × BlockType × Size))
    (remember : α → Rect Int → Sketch Unit) : Sketch Size := do
  let s := stackSize (parts.map (·.2))
  for ((a, _, size), y) in parts.zip (tops 0 (parts.map (·.2))) do
    remember a ⟨0, y, size.w, size.h⟩
    Shape.blit s size 0 y
  return s

/-- The stack that stands in an empty body. -/
def drawEllipsis : Sketch Size := do
  let d := Catalogue.ellipsis
  let layers ← drawLayers (fun _ => return ⟨1, 1⟩) (fun _ => return ⟨1, 1⟩) d.color d.components
    [] []
  let s ← assemble d layers fun _ => return
  assembleStack [((), d.blockType, s)] fun _ _ => return

/-- Draw a block whose slots are all unfilled, without making it. -/
def drawUnfilled (d : Definition) : Sketch Size := do
  let layers ← drawLayers (fun _ => return ⟨1, 1⟩) (fun _ => drawEllipsis) d.color d.components
    (List.replicate d.countInputs .none) []
  assemble d layers fun _ => return

mutual

/-- Draw a block, nested to a depth of at most `fuel`. -/
def drawBlockTo : Nat → BlockId → Sketch Size
  | 0, _ => return ⟨1, 1⟩
  | fuel + 1, id => do
    let b := (← get).store.block id
    let d := b.definition
    let layers ← drawLayers (drawBlockTo fuel)
      (fun | none => drawEllipsis | some body => drawStackTo fuel body) d.color d.components
      b.values []
    let s ← assemble d layers fun slots =>
      Sketch.modifyStore (·.modifyBlock id fun b => { b with slots })
    Sketch.modifyStore (·.modifyBlock id fun b => { b with rect := ⟨0, 0, s.w, s.h⟩ })
    return s

/-- Draw a stack, nested to a depth of at most `fuel`. -/
def drawStackTo : Nat → StackId → Sketch Size
  | 0, _ => return ⟨1, 1⟩
  | fuel + 1, id => do
    let parts ← ((← get).store.blocksOf id).mapM fun b => do
      let s ← drawBlockTo fuel b
      return (b, ((← get).store.definitionOf b).blockType, s)
    assembleStack parts fun b rect =>
      Sketch.modifyStore (·.modifyBlock b fun b => { b with rect })

end

end Layout

namespace Sketch

def block (id : BlockId) : Sketch Size := do
  Layout.drawBlockTo (← get).store.depth id

def stack (id : StackId) : Sketch Size := do
  Layout.drawStackTo (← get).store.depth id

/-- Draw a block or a stack; other values cannot be drawn. -/
def value : Value → Sketch Size
  | .block id => block id
  | .stack id => stack id
  | v => throw (.noAttribute v.kindName "blocks")

end Sketch

end BlockStudio
