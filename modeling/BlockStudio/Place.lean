/-!
# Places in lists

A place is counted from the front, from zero, or from the back when it is negative, so that minus
one is the last place.
-/

namespace BlockStudio

/-- The place from the front, if a list of this length has it. -/
def placeIn (length : Nat) (i : Int) : Option Nat :=
  let j := if i < 0 then i + length else i
  if 0 ≤ j ∧ j < length then some j.toNat else none

def itemAt? {α : Type} (items : List α) (i : Int) : Option α :=
  (placeIn items.length i).bind (items[·]?)

theorem placeIn_lt {length : Nat} {i : Int} {j : Nat} (h : placeIn length i = some j) :
    j < length := by
  unfold placeIn at h
  grind

theorem placeIn_natCast {length i : Nat} (h : i < length) :
    placeIn length (i : Int) = some i := by
  unfold placeIn
  grind

end BlockStudio
