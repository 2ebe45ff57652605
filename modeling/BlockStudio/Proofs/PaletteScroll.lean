import BlockStudio.Proofs.Calm

/-!
# Scrolling the palette

The wheel scrolls the palette as far as the place where its last block stood when the palette was last
drawn, counted from where the first block of an unscrolled palette stands.  So the limit is right only if
it was drawn at the top: the further down it was drawn, the earlier it ends, and a wheel down can scroll
up.
-/

namespace BlockStudio

open List Edit Editor

variable {e e' : Editor} {u : Unit} {y : Num} {ds : List Definition}

end BlockStudio
