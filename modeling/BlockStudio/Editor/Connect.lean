import BlockStudio.Editor.Hit
import BlockStudio.Editor.View

/-!
# Joining the dragged stack to the workspace

While a stack is dragged the editor looks for the place where it would be joined. A reporter joins a
slot that it overlaps and fits; other blocks join below a block, above one, or an empty body,
when the ends are near each other. On the way the bodies of blocks are told where they are. The last
place found is the one that counts.
-/

namespace BlockStudio

/-- Whether two points are near enough to snap together. -/
def Point.near (a b : Point) : Bool :=
  (a.distanceSquared b).le 625

namespace Edit

def heldFirst : Edit Block := do
  let e ← get
  match e.cursor with
  | none => throw (.noAttribute "NoneType" "blocks")
  | some id =>
    match e.store.blocksOf id with
    | [] => throw (.outOfRange .list)
    | b :: _ => return e.store.block b

def heldLast : Edit Block := do
  let e ← get
  match e.cursor with
  | none => throw (.noAttribute "NoneType" "blocks")
  | some id =>
    match (e.store.blocksOf id).getLast? with
    | none => throw (.outOfRange .list)
    | some b => return e.store.block b

def heldSize : Edit Size := do
  match (← get).cursorSize with
  | some s => return s
  | none => throw (.noAttribute "NoneType" "get_size")

/-- The place in the workspace of the dragged stack. -/
def heldPlace : Edit Point := do
  let e ← get
  ofExcept (e.toWorld (← ofExcept e.cursorPlace))

def propose (c : Candidate) : Edit Unit :=
  modify fun e => { e with candidate := some c }

def joinLine (x y : Num) : Edit (Rect Num) := do
  return ⟨x, y, (← heldFirst).rect.w, 0⟩

/-- Offer an empty body to the dragged stack. -/
def checkEmpty (stack : StackId) (stackIndex : Nat) : Edit Unit := do
  let held ← heldPlace
  let place ← ofExcept ((← store).stack stack).place
  if Point.near ⟨held.x + 16, held.y⟩ ⟨place.x + 16, place.y⟩ then
    let t := (← heldFirst).definition.blockType
    if t = .statement ∨ t = .cap then
      propose {
        stack, stackIndex, blockIndex := none, block := none, joint := .after, slot := none
        outline := ← joinLine place.x place.y }

/-- Offer the lower end of a block to the dragged stack. The answer tells whether the search in
this stack ends: because the end was taken, or because nothing can stand below what is dragged. -/
def checkBelow (stack : StackId) (stackIndex i count : Nat) (id : BlockId) (held place : Point) :
    Edit Bool := do
  let b := (← store).block id
  let bottom := place.y + b.rect.y + b.rect.h
  if Point.near ⟨held.x + 16, held.y⟩ ⟨place.x + 16, bottom⟩ then
    let first := (← heldFirst).definition.blockType
    let t := b.definition.blockType
    if (first = .cap ∨ first = .statement) ∧ ¬(t = .cap ∨ t = .reporter) then
      if (← heldLast).definition.blockType = .cap ∧ i + 1 ≠ count then return true
      propose {
        stack, stackIndex, blockIndex := some i, block := some id, joint := .after, slot := none
        outline := ← joinLine place.x (bottom - halfGap) }
      return true
  return false

/-- Offer the upper end of a block to the dragged stack; `top` is the type of the first block of
the stack. The answer tells whether the end was taken. -/
def checkAbove (stack : StackId) (stackIndex i : Nat) (id : BlockId) (top : BlockType)
    (held place : Point) : Edit Bool := do
  let b := (← store).block id
  let y := place.y + b.rect.y
  if Point.near ⟨held.x + 16, held.y + (← heldSize).h⟩ ⟨place.x + 16, y⟩ then
    let first := (← heldFirst).definition.blockType
    let last := (← heldLast).definition.blockType
    if (first = .hat ∨ first = .statement) ∧ ¬(top = .hat ∨ top = .reporter) ∧
        ¬(last = .cap ∨ last = .reporter) ∧ ¬(first = .hat ∧ i ≠ 0) then
      propose {
        stack, stackIndex, blockIndex := some i, block := some id, joint := .before, slot := none
        outline := ← joinLine place.x (y - halfGap) }
      return true
  return false

/-- The body in a slot of a block; a slot without one gets an empty body. -/
def bodyIn (id : BlockId) (i : Nat) : Edit StackId := do
  match ← slotValue id i with
  | .stack body => return body
  | _ =>
    let body ← addStack [] none
    assign id i (.stack body)
    return body

/-- Where the body in a slot is, for a block of a stack at a place. -/
def bodyPlace (place : Point) (b : Block) (slot : Rect Num) : Point :=
  ⟨place.x + slot.x + 16, place.y + slot.y + b.rect.y⟩

/-- Offer slots one after the other, up to the first that takes the dragged reporter or holds a
block; `nested` offers the slots of a block in a slot, `body` a body. -/
def checkEachSlot (nested : BlockId → Num → Num → Edit Unit) (body : StackId → Edit Unit)
    (stack : StackId) (stackIndex : Nat) (id : BlockId) (held : Rect Num) (dx dy : Num) :
    List (Rect Num × Nat) → Edit Unit
  | [] => return
  | (slot, i) :: rest => do
    let r := slot.shift dx dy
    if held.overlaps r then
      match ← slotValue id i with
      | .block inner => nested inner (dx + slot.x) (dy + slot.y - halfGap)
      | v =>
        let c ← slotComponent id i
        if c.kind.fits (← heldFirst).definition.outputType then
          propose {
            stack, stackIndex, blockIndex := some 0, block := some id, joint := .value
            slot := some i, outline := r }
        else
          match v with
          | .stack b => body b
          | _ => pure ()
          checkEachSlot nested body stack stackIndex id held dx dy rest
    else checkEachSlot nested body stack stackIndex id held dx dy rest

/-- Offer the bodies of a block to the dragged stack, telling each where it is. -/
def checkBodies (body : StackId → Edit Unit) (id : BlockId) (place : Point) :
    List (Component × Nat) → Edit Unit
  | [] => return
  | (c, i) :: rest => do
    if c.kind = .statement then
      let b := (← store).block id
      match b.slotRects[i]? with
      | none => throw (.outOfRange .list)
      | some slot =>
        let inner ← bodyIn id i
        modifyStore (·.setPosition inner (bodyPlace place b slot).asPosition)
        body inner
    checkBodies body id place rest

/-- Offer the blocks of a stack to the dragged stack one after the other; `top` is the type of the
first one. -/
def checkBlocks (slots : BlockId → Rect Num → Num → Num → Edit Unit) (body : StackId → Edit Unit)
    (stack : StackId) (stackIndex count : Nat) (top : BlockType) :
    List (BlockId × Nat) → Edit Unit
  | [] => return
  | (id, i) :: rest => do
    let isReporter := decide ((← heldFirst).definition.blockType = .reporter)
    let held ← heldPlace
    let place ← ofExcept ((← store).stack stack).place
    let b := (← store).block id
    if isReporter then
      let s ← heldSize
      let y := place.y + b.rect.y
      let y := if top = .reporter then y - halfGap else y
      slots id ⟨held.x, held.y, s.w, s.h⟩ place.x y
      checkBlocks slots body stack stackIndex count top rest
    else
      if ← checkBelow stack stackIndex i count id held place then return
      if ← checkAbove stack stackIndex i id top held place then return
      checkBodies body id place b.definition.inputs.zipIdx
      checkBlocks slots body stack stackIndex count top rest

mutual

/-- Offer the slots of a block to the dragged reporter, nested to a depth of `fuel`. -/
def checkSlots (stackIndex : Nat) : Nat → StackId → Rect Num → BlockId → Num → Num → Edit Unit
  | 0, _, _, _, _, _ => return
  | fuel + 1, stack, held, id, dx, dy => do
    checkEachSlot (checkSlots stackIndex fuel stack held) (checkStack stackIndex fuel) stack
      stackIndex id held dx dy ((← store).block id).slotRects.zipIdx

/-- Offer a stack to the dragged stack, nested to a depth of `fuel`. -/
def checkStack (stackIndex : Nat) : Nat → StackId → Edit Unit
  | 0, _ => return
  | fuel + 1, stack => do
    let s ← store
    match s.blocksOf stack with
    | [] => checkEmpty stack stackIndex
    | b :: rest =>
      checkBlocks (fun id held => checkSlots stackIndex fuel stack held id)
        (checkStack stackIndex fuel) stack stackIndex (rest.length + 1)
        (s.definitionOf b).blockType (b :: rest).zipIdx

end

/-- Look for the place where the dragged stack would be joined. -/
def findCandidate : Edit Unit := do
  modify fun e => { e with candidate := none }
  let e ← get
  if e.cursor.isSome then
    for (stack, i) in e.workspace.zipIdx do
      checkStack i (2 * (← store).depth) stack

/-- Join the dragged stack to the place that was found. -/
def join (cursor : StackId) (c : Candidate) : Edit Unit := do
  let s ← store
  let blocks := s.blocksOf cursor
  match c.joint with
  | .after =>
    match c.blockIndex with
    | none => modifyStore (·.editRow c.stack (· ++ blocks))
    | some i => modifyStore (·.editRow c.stack fun row =>
        row.take (i + 1) ++ blocks ++ row.drop (i + 1))
  | .before =>
    let i := c.blockIndex.getD 0
    modifyStore (·.editRow c.stack fun row => row.take i ++ blocks ++ row.drop i)
    if (← get).workspace.contains c.stack then
      let place ← ofExcept ((← store).stack c.stack).place
      let h := (← heldSize).h
      modifyStore (·.setPosition c.stack (Point.asPosition ⟨place.x, place.y - h + 8⟩))
  | .value =>
    match c.block, c.slot, blocks with
    | some id, some i, b :: _ => assign id i (.block (← copyBlock b))
    | _, _, _ => throw (.outOfRange .list)
  redraw c.stackIndex

/-- Let go of the dragged stack over the workspace. -/
def dropCursor (cursor : StackId) : Edit Unit := do
  match (← get).candidate with
  | some c => join cursor c
  | none =>
    let place ← heldPlace
    modifyStore (·.setPosition cursor place.asPosition)
    modify fun e => {
      e with workspace := e.workspace ++ [cursor], renderings := e.renderings ++ [none] }
    redraw (-1)

end Edit

end BlockStudio
