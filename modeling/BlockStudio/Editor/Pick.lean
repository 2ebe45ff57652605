import BlockStudio.Editor.Hit
import BlockStudio.Editor.Menu

/-!
# Clicking on stacks

A click on a block picks up the stack from that block on, a click on a reporter in a slot picks the
reporter up. A click on a slot begins to edit it: a truth value flips, the name of a variable
opens a menu, and in a body the click goes to the stack that stands there.
-/

namespace BlockStudio

/-- What a point of a stack hits. -/
inductive Hit where
  /-- The block with a number, outside of its slots. -/
  | block (index : Nat) (id : BlockId)
  /-- A reporter in a slot of a block, reached along a path of slots. -/
  | reporter (id : BlockId) (slot : Nat) (path : List Nat)
  | spot (id : BlockId) (spot : Spot)

namespace Edit

/-- What the mouse hits in a stack; nothing when it is beside its blocks. -/
def hitIn (r : Rendering) (stackIndex : Int) : Edit (Option Hit) := do
  let e ← get
  let mouse := e.devices.mouse
  if !r.rect.contains mouse.x mouse.y then return none
  let p ← ofExcept (e.toWorld mouse)
  let s := e.store
  match ← ofExcept (s.blockAt r.stack p) with
  | none => return none
  | some i =>
    match (s.blocksOf r.stack)[i]? with
    | none => return none
    | some id =>
      let place ← ofExcept (s.stack r.stack).place
      let dy := place.y + (s.block id).rect.y
      match ← ofExcept (s.spotAt id stackIndex p place.x dy) with
      | some spot => return some (.spot id spot)
      | none =>
        match ← ofExcept (s.pathAt id p place.x dy) with
        | [] => return some (.block i id)
        | slot :: path => return some (.reporter id slot path)

/-- Pick up a stack from the block with a number on, and tell where it was; `detach` takes a whole
stack away from its place. -/
def pickBlocks (r : Rendering) (detach : Edit Unit) (i : Nat) (id : BlockId) : Edit Point := do
  if i = 0 then
    let cursor ← copyStack r.stack
    modify fun e => { e with cursor := some cursor }
    detach
    return ⟨r.rect.x, r.rect.y⟩
  else
    let row := (← store).blocksOf r.stack
    let rect := ((← store).block id).rect
    let cursor ← addStack (row.drop i) none
    modify fun e => { e with cursor := some cursor }
    modifyStore (·.replaceRow r.stack (row.take i))
    return ⟨rect.x + r.rect.x, rect.y + r.rect.y⟩

def slotCorner (s : Store) (id : BlockId) (i : Nat) : Point :=
  match (s.block id).slotRects[i]? with
  | some r => ⟨r.x, r.y⟩
  | none => ⟨0, 0⟩

/-- Add up the corners of the slots on a path, from the block in a slot on. -/
def sumCorners (s : Store) : BlockId → Nat → Point → List Nat → Point
  | _, _, p, [] => p
  | id, slot, p, next :: path =>
    match (s.block id).values[slot]? with
    | some (.block inner) =>
      let c := slotCorner s inner next
      sumCorners s inner next ⟨p.x + c.x, p.y + (c.y - halfGap)⟩ path
    | _ => p

/-- Pick up a reporter out of a slot, and tell where it was. -/
def pickReporter (r : Rendering) (id : BlockId) (slot : Nat) (path : List Nat) : Edit Point := do
  let s ← store
  let rect := (s.block id).rect
  let p := sumCorners s id slot ⟨r.rect.x + rect.x, r.rect.y + rect.y⟩ path
  let (holder, last) := s.holderAlong id slot path
  let c := slotCorner s holder last
  match ← slotValue holder last with
  | .block chosen =>
    let cursor ← addStack [← copyBlock chosen] none
    modify fun e => { e with cursor := some cursor }
    assign holder last .none
    return ⟨p.x + c.x, p.y + c.y⟩
  | v => throw (.noAttribute v.kindName "copy")

/-- After something was picked up, draw the workspace and take a grip on it. -/
def takeGrip (stackIndex : Int) (origin : Point) : Edit Unit := do
  let mouse := (← get).devices.mouse
  redraw stackIndex
  let grip ← ofExcept ((← get).gripAt mouse origin)
  modify fun e => { e with grip }

/-- The stack in a slot for a body, drawn. -/
def renderBody (spot : Spot) : Edit Rendering := do
  match ← slotValue spot.block spot.slot with
  | .stack body => render body
  | v => throw (.noAttribute v.kindName "blocks")

/-- Click on a stack with the left button, nested to a depth of `fuel`; the answer tells whether
something was hit. -/
def clickTo : Nat → Rendering → Int → Edit Unit → Edit Bool
  | 0, _, _, _ => return false
  | fuel + 1, r, stackIndex, detach => do
    match ← hitIn r stackIndex with
    | none => return false
    | some (.block i id) =>
      takeGrip stackIndex (← pickBlocks r detach i id)
      return true
    | some (.reporter id slot path) =>
      takeGrip stackIndex (← pickReporter r id slot path)
      return true
    | some (.spot id spot) =>
      let c ← slotComponent spot.block spot.slot
      match c.kind with
      | .boolean =>
        let v ← slotValue spot.block spot.slot
        assign spot.block spot.slot (.bool !v.truth)
      | .statement =>
        let body ← renderBody spot
        let _ ← clickTo fuel body stackIndex (assign spot.block spot.slot .none)
      | .varName => openMenu ⟨r.stack, id, stackIndex, .varSlot spot⟩
      | _ => modify fun e => { e with editing := true, edited := some spot }
      redraw stackIndex
      return true

/-- Click on a stack with the right button, nested to a depth of `fuel`; the answer tells whether
something was hit. -/
def rightClickTo : Nat → Rendering → Int → Edit Bool
  | 0, _, _ => return false
  | fuel + 1, r, stackIndex => do
    match ← hitIn r stackIndex with
    | none => return false
    | some (.block i id) =>
      openMenu ⟨r.stack, id, stackIndex, .block i⟩
      return true
    | some (.reporter id slot path) =>
      let (holder, last) := (← store).holderAlong id slot path
      openMenu ⟨r.stack, holder, stackIndex, .reporter last⟩
      return true
    | some (.spot _ spot) =>
      let c ← slotComponent spot.block spot.slot
      if c.kind = .statement then
        let _ ← rightClickTo fuel (← renderBody spot) stackIndex
      return true

/-- Try the stacks of the workspace from front to back until one is hit; when none is, draw the
workspace. -/
def tryStacks (click : Rendering → Nat → Edit Bool) : List (Option Rendering × Nat) → Edit Unit
  | [] => redraw (-1)
  | (none, _) :: _ => throw (.noAttribute "NoneType" "rect")
  | (some r, i) :: rest => do
    if ← click r i then return
    tryStacks click rest

def clickWorkspace : Edit Unit := do
  let e ← get
  tryStacks (fun r i => clickTo e.store.depth r i (removeStack i)) e.renderings.zipIdx.reverse

def rightClickWorkspace : Edit Unit := do
  let e ← get
  tryStacks (fun r i => rightClickTo e.store.depth r i) e.renderings.zipIdx.reverse

end Edit

end BlockStudio
