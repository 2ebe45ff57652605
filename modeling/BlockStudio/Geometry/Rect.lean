import BlockStudio.Number.Num

/-!
# Rectangles

A rectangle has a corner and a size. A point belongs to it when it is not left of or above the
corner and lies strictly before the far edges, so rectangles that share an edge share no point.
-/

namespace BlockStudio

/-- A rectangle: its top left corner and its size. -/
structure Rect (α : Type) where
  x : α
  y : α
  w : α
  h : α
  deriving DecidableEq, Repr

namespace Rect

def map {α β : Type} (f : α → β) (r : Rect α) : Rect β :=
  ⟨f r.x, f r.y, f r.w, f r.h⟩

instance {α : Type} [OfNat α 0] : Inhabited (Rect α) := ⟨⟨0, 0, 0, 0⟩⟩

/-- The rectangle moved by a distance. -/
def shift {α : Type} [Add α] (r : Rect α) (dx dy : α) : Rect α :=
  { r with x := r.x + dx, y := r.y + dy }

/-- A rectangle from the first four numbers of a row. -/
def ofItems (what : Indexed) : List Num → Except Fault (Rect Num)
  | x :: y :: w :: h :: _ => .ok ⟨x, y, w, h⟩
  | _ => .error (.outOfRange what)

def shown (r : Rect Num) : String :=
  "Rect(" ++ ", ".intercalate [r.x.text, r.y.text, r.w.text, r.h.text] ++ ")"

def collisionText (thing : String) (r : Rect Num) : String :=
  "RectCollision(..., " ++ thing ++ ", " ++ r.shown ++ ")"

def contains (r : Rect Num) (px py : Num) : Bool :=
  r.x.le px && px.lt (r.x + r.w) && (r.y.le py && py.lt (r.y + r.h))

/-- Whether two rectangles, both of positive size, overlap. -/
def overlaps (r s : Rect Num) : Bool :=
  if r.w.le 0 || r.h.le 0 || s.w.le 0 || s.h.le 0 then false
  else if (r.x + r.w).le s.x || (s.x + s.w).le r.x then false
  else if (r.y + r.h).le s.y || (s.y + s.h).le r.y then false
  else true

end Rect

end BlockStudio
