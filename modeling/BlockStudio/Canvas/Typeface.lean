import BlockStudio.Canvas.Stroke

/-!
# Typefaces

Every character of a typeface has the same width and every line the same height, so the size of a
text follows from its longest line and the number of its lines.
-/

namespace BlockStudio

/-- A typeface, known by its size in points. -/
structure Typeface where
  points : Nat
  deriving DecidableEq, Repr

namespace Typeface

def regular : Typeface := ⟨17⟩

def mono : Typeface := ⟨17⟩

/-- The typeface of titles, twice the regular size. -/
def big : Typeface := ⟨34⟩

/-- The typeface of captions, three quarters of the regular size. -/
def small : Typeface := ⟨12⟩

def charWidth (f : Typeface) : Nat :=
  f.points / 2 + 1

def lineHeight (f : Typeface) : Nat :=
  f.points + 4

def lines (text : String) : List (List Char) :=
  text.toList.splitOn '\n'

/-- The size of a text; an empty one is as wide as one character. -/
def measure (f : Typeface) (text : String) : Size :=
  let ls := lines text
  ⟨ls.foldl (fun n l => max n l.length) 1 * f.charWidth, f.lineHeight * ls.length⟩

def write (f : Typeface) (text : String) (color : Paint) : Sketch Size := do
  Sketch.draw (.text f.points text color)
  return f.measure text

end Typeface

end BlockStudio
