/-!
# Searching texts

Occurrences of one text in another, and replacing all of them from left to right without overlap.
-/

namespace BlockStudio

def occursIn (pattern : List Char) : List Char → Bool
  | [] => pattern.isEmpty
  | c :: cs => pattern.isPrefixOf (c :: cs) || occursIn pattern cs

/-- Replace every occurrence of a pattern that is not empty. The first argument counts characters
still covered by the occurrence that was just replaced. -/
def replaceFrom (pattern new : List Char) : Nat → List Char → List Char
  | _, [] => []
  | skip + 1, _ :: cs => replaceFrom pattern new skip cs
  | 0, c :: cs =>
    if pattern.isPrefixOf (c :: cs) then new ++ replaceFrom pattern new (pattern.length - 1) cs
    else c :: replaceFrom pattern new 0 cs

/-- Replace every occurrence of a pattern, from left to right. The empty pattern occurs around
every character. -/
def replaceAll (pattern new cs : List Char) : List Char :=
  if pattern.isEmpty then new ++ cs.flatMap fun c => c :: new
  else replaceFrom pattern new 0 cs

/-- Line ends of every style as plain line feeds. -/
def plainLineEnds : List Char → List Char
  | [] => []
  | '\r' :: '\n' :: cs => '\n' :: plainLineEnds cs
  | c :: cs => (if c = '\r' then '\n' else c) :: plainLineEnds cs

end BlockStudio
