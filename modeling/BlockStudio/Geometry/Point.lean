import BlockStudio.Number.Num

/-!
# Points

Points of the plane and the distance between them.
-/

namespace BlockStudio

structure Point where
  x : Num
  y : Num
  deriving Inhabited

namespace Point

def distanceSquared (a b : Point) : Num :=
  let dx := b.x - a.x
  let dy := b.y - a.y
  dx * dx + dy * dy

/-- The distance between two points; the square of it has to be within reach of doubles. -/
def distance (a b : Point) : Except Fault Num := do
  let x := (distanceSquared a b).toFloat
  match distanceSquared a b with
  | .int _ => if x.isInf then throw .beyondFloat
  | .float _ => pure ()
  return .float x.sqrt

end Point

end BlockStudio
