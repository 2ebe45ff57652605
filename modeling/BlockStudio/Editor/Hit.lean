import BlockStudio.Editor.State

/-!
# What is under a point

The block of a stack under a point, and inside a block the slot under it. `Store.spotAt` gives the
innermost slot without a block in it, `Store.pathAt` the slots with blocks in them that lead there.
-/

namespace BlockStudio

/-- The first rectangle that contains a point, with its number. -/
def firstHit (rects : List (Rect Num)) (px py : Num) : Option (Nat × Rect Num) :=
  (rects.zipIdx.find? fun r => r.1.contains px py).map fun r => (r.2, r.1)

/-- Half a gap, by which a block in a slot stands higher than its slot counts. -/
def halfGap : Num := .float 4

namespace Store

/-- The number of the block under a point of the workspace. -/
def blockAt (s : Store) (id : StackId) (p : Point) : Except Fault (Option Nat) :=
  let blocks := s.blocksOf id
  if blocks.isEmpty then .ok none
  else do
    let place ← (s.stack id).place
    let rects := blocks.map fun b => ((s.block b).rect.map Num.int).shift place.x place.y
    return (firstHit rects p.x p.y).map (·.1)

/-- The innermost slot under a point that holds no block, in blocks nested to a depth of `fuel`;
`dx` and `dy` is where the block is. -/
def spotAtTo (s : Store) (stackIndex : Int) (p : Point) :
    Nat → BlockId → Num → Num → Except Fault (Option Spot)
  | 0, _, _, _ => .ok none
  | fuel + 1, id, dx, dy =>
    match firstHit (s.block id).slotRects (p.x - dx) (p.y - dy) with
    | none => .ok none
    | some (i, r) =>
      match (s.block id).values[i]? with
      | none => .error (.outOfRange .list)
      | some (.block inner) => spotAtTo s stackIndex p fuel inner (dx + r.x) (dy + r.y - halfGap)
      | some _ => .ok (some ⟨id, i, stackIndex⟩)

def spotAt (s : Store) (id : BlockId) (stackIndex : Int) (p : Point) (dx dy : Num) :
    Except Fault (Option Spot) :=
  s.spotAtTo stackIndex p s.depth id dx dy

/-- The slots with blocks in them that lead to a point, in blocks nested to a depth of `fuel`. -/
def pathAtTo (s : Store) (p : Point) : Nat → BlockId → Num → Num → Except Fault (List Nat)
  | 0, _, _, _ => .ok []
  | fuel + 1, id, dx, dy =>
    match firstHit (s.block id).slotRects (p.x - dx) (p.y - dy) with
    | none => .ok []
    | some (i, r) =>
      match (s.block id).values[i]? with
      | none => .error (.outOfRange .list)
      | some (.block inner) => do
        return i :: (← pathAtTo s p fuel inner (dx + r.x) (dy + r.y - halfGap))
      | some _ => .ok []

def pathAt (s : Store) (id : BlockId) (p : Point) (dx dy : Num) : Except Fault (List Nat) :=
  s.pathAtTo p s.depth id dx dy

/-- Follow a path of slots with blocks in them: the last block on the way and its slot. -/
def holderAlong (s : Store) (id : BlockId) (slot : Nat) : List Nat → BlockId × Nat
  | [] => (id, slot)
  | next :: path =>
    match (s.block id).values[slot]? with
    | some (.block inner) => s.holderAlong inner next path
    | _ => (id, slot)

end Store

end BlockStudio
