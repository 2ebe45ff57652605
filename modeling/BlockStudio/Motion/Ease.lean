import BlockStudio.Motion.Tween

/-!
# Easings

Easings map the unit interval onto itself along a piece of a sine and are not defined outside it.
-/

namespace BlockStudio

namespace Ease

def pi : Float := 3.141592653589793

/-- Apply a curve inside the unit interval. -/
def within (curve : Float → Float) (n : Num) : Except Fault Num :=
  let x := n.toFloat
  if 0 ≤ x && x ≤ 1 then .ok (.float (curve x)) else .error .easeRange

/-- Fast at first, slow at the end. -/
def outSine : Num → Except Fault Num :=
  within fun x => Float.sin (x * pi / 2)

/-- Slow at first and at the end. -/
def inOutSine : Num → Except Fault Num :=
  within fun x => -0.5 * (Float.cos (pi * x) - 1)

end Ease

end BlockStudio
