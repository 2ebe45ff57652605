import BlockStudio.Geometry.Rect
import BlockStudio.Language.Catalogue

/-!
# The store of blocks and stacks

Blocks and stacks can be shared: a stack that is copied shows the same blocks, and a change of one
of them shows in both. So they live in a store under their identities. A stack shows a row of
blocks; inserting and removing change the row, while splitting a stack gives it a new one and
leaves the old row to whoever is walking along it.

Copying a block copies the blocks in its slots to any depth and gives each body a new stack of the
same blocks.
-/

namespace BlockStudio

structure Block where
  definition : Definition
  values : List Value
  /-- Where the block was last drawn, relative to its stack. -/
  rect : Rect Int := ⟨0, 0, 0, 0⟩
  /-- Where its slots were last drawn, relative to the block. -/
  slots : List (Rect Rat) := []
  deriving Inhabited

/-- A stack of blocks with an optional place in the workspace. A place that is read from a file can
have any number of coordinates of any kind. -/
structure Stack where
  /-- The row of blocks that the stack shows. -/
  row : RowId
  /-- The place of its top left corner. -/
  position : Option (List Value)
  deriving Inhabited

/-- All blocks, stacks and rows that were made so far. -/
structure Store where
  blocks : Array Block
  allStacks : Array Stack
  rows : Array (List BlockId)
  retired : Nat
  deriving Inhabited

namespace Store

/-- The store that holds only the blank stack. -/
def empty : Store where
  blocks := #[]
  allStacks := #[⟨⟨0⟩, none⟩]
  rows := #[[]]
  retired := 0

def block (s : Store) (id : BlockId) : Block :=
  s.blocks.getD id.index default

def stack (s : Store) (id : StackId) : Stack :=
  s.allStacks.getD id.index default

def row (s : Store) (id : RowId) : List BlockId :=
  s.rows.getD id.index []

/-- The blocks that a stack shows. -/
def blocksOf (s : Store) (id : StackId) : List BlockId :=
  s.row (s.stack id).row

def definitionOf (s : Store) (id : BlockId) : Definition :=
  (s.block id).definition

def addBlock (s : Store) (definition : Definition) (values : List Value) : BlockId × Store :=
  (⟨s.blocks.size⟩, { s with blocks := s.blocks.push { definition, values } })

def addStack (s : Store) (blocks : List BlockId) (position : Option (List Value)) :
    StackId × Store :=
  (⟨s.allStacks.size⟩,
    { s with rows := s.rows.push blocks, allStacks := s.allStacks.push ⟨⟨s.rows.size⟩, position⟩ })

def addRetired (s : Store) : BlockId × Store :=
  addBlock { s with retired := s.retired + 1 } (Catalogue.retired s.retired) []

def modifyBlock (s : Store) (id : BlockId) (f : Block → Block) : Store :=
  { s with blocks := s.blocks.modify id.index f }

def modifyStack (s : Store) (id : StackId) (f : Stack → Stack) : Store :=
  { s with allStacks := s.allStacks.modify id.index f }

def setValue (s : Store) (id : BlockId) (i : Nat) (v : Value) : Store :=
  s.modifyBlock id fun b => { b with values := b.values.set i v }

def setPosition (s : Store) (id : StackId) (position : Option (List Value)) : Store :=
  s.modifyStack id fun t => { t with position }

/-- Change the row that a stack shows, for everybody who looks at the row. -/
def editRow (s : Store) (id : StackId) (f : List BlockId → List BlockId) : Store :=
  { s with rows := s.rows.modify (s.stack id).row.index f }

def replaceRow (s : Store) (id : StackId) (blocks : List BlockId) : Store :=
  let row : RowId := ⟨s.rows.size⟩
  { s with rows := s.rows.push blocks }.modifyStack id fun t => { t with row }

/-- A bound on how deep blocks can be nested in one another. -/
def depth (s : Store) : Nat :=
  s.blocks.size + s.allStacks.size + 1

/-! ### Copies -/

/-- A new stack of the same blocks at the same place. -/
def copyStack (s : Store) (id : StackId) : StackId × Store :=
  s.addStack (s.blocksOf id) (s.stack id).position

/-- Copy the blocks and stacks among values, one after the other. -/
def copyValues (copyBlock : Store → BlockId → BlockId × Store) (s : Store) :
    List Value → List Value × Store
  | [] => ([], s)
  | .block id :: rest =>
    let (new, s) := copyBlock s id
    let (values, s) := copyValues copyBlock s rest
    (.block new :: values, s)
  | .stack id :: rest =>
    let (new, s) := s.copyStack id
    let (values, s) := copyValues copyBlock s rest
    (.stack new :: values, s)
  | v :: rest =>
    let (values, s) := copyValues copyBlock s rest
    (v :: values, s)

/-- A copy of a block and of the blocks in its slots, to a depth of `fuel`. -/
def copyBlockTo : Nat → Store → BlockId → BlockId × Store
  | 0, s, id => (id, s)
  | fuel + 1, s, id =>
    let b := s.block id
    let (values, s) := copyValues (copyBlockTo fuel) s b.values
    s.addBlock b.definition values

def copyBlock (s : Store) (id : BlockId) : BlockId × Store :=
  copyBlockTo s.depth s id

def asBlock : Value → Except Fault BlockId
  | .block id => .ok id
  | v => .error (.noAttribute v.kindName "values")

def asStack : Value → Except Fault StackId
  | .stack id => .ok id
  | v => .error (.noAttribute v.kindName "blocks")

/-- Fill the slot with a given number, counted from the back when negative. -/
def assign (s : Store) (id : BlockId) (i : Int) (v : Value) : Except Fault Store :=
  match placeIn (s.block id).values.length i with
  | some i => .ok (s.setValue id i v)
  | none => .error (.outOfRange .assignment)

/-- A copy of a block or a stack; other values have none. -/
def copyValue (s : Store) : Value → Except Fault (Value × Store)
  | .block id => .ok ((s.copyBlock id).map .block (fun s => s))
  | .stack id => .ok ((s.copyStack id).map .stack (fun s => s))
  | v => .error (.noAttribute v.kindName "copy")

/-- Go along a path: into the slots of a block and to the blocks of a stack, counted from the back
when negative. -/
def follow (s : Store) : List Int → Value → Except Fault Value
  | [], v => .ok v
  | i :: path, .block id =>
    match itemAt? (s.block id).values i with
    | some v => s.follow path v
    | none => .error (.outOfRange .list)
  | i :: path, .stack id =>
    match itemAt? (s.blocksOf id) i with
    | some b => s.follow path (.block b)
    | none => .error (.outOfRange .list)
  | _, v => .error (.noAttribute v.kindName "values")

end Store

end BlockStudio
