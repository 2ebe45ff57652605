import BlockStudio.Number.Num

/-!
# Values that move

A tween leads from one value to another within a duration, along an easing that maps the part of the
duration that has passed to the part of the way. It rests when both values are the same, and
snaps to the target once more time has passed than it has.

The quantities are kept general: the editor moves numbers, and the same rules hold for exact
ones.
-/

namespace BlockStudio

/-- What a tween needs of its quantities: arithmetic, a division that can fail, and tests. -/
class Quantity (α : Type) extends Add α, Sub α, Mul α where
  zero : α
  quotient : α → α → Except Fault α
  same : α → α → Bool
  exceeds : α → α → Bool

instance : Quantity Num where
  zero := .int 0
  quotient := Num.div
  same := Num.eq
  exceeds a b := Num.lt b a

/-- A value on its way. -/
structure Tween (α : Type) where
  /-- The part of the way for a part of the duration. -/
  ease : α → Except Fault α
  source : α
  target : α
  duration : α
  elapsed : α

namespace Tween

variable {α : Type} [Quantity α]

/-- A tween at rest. -/
def rest (ease : α → Except Fault α) (value duration : α) : Tween α :=
  ⟨ease, value, value, duration, Quantity.zero⟩

def ended (w : Tween α) : Bool :=
  Quantity.same w.source w.target

def resetTo (w : Tween α) (value : α) : Tween α :=
  { w with source := value, target := value, elapsed := Quantity.zero }

def value (w : Tween α) : Except Fault α :=
  if w.ended then .ok w.source
  else do
    let part ← w.ease (← Quantity.quotient w.elapsed w.duration)
    return part * (w.target - w.source) + w.source

/-- Set out from the present value to another. -/
def headFor (w : Tween α) (target : α) : Except Fault (Tween α) := do
  return { w with source := ← w.value, target, elapsed := Quantity.zero }

def advance (w : Tween α) (dt : α) : Tween α :=
  if w.ended then w
  else
    let later := { w with elapsed := w.elapsed + dt }
    if Quantity.exceeds later.elapsed later.duration then later.resetTo later.target else later

end Tween

end BlockStudio
