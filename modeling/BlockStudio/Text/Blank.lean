/-!
# Blank characters

The characters that count as white space at the ends of a typed number: six of ASCII, and the
Unicode spaces beyond ASCII.
-/

namespace BlockStudio

/-- The blanks of ASCII: space, tab, line feed, vertical tab, form feed and carriage return. -/
def isAsciiBlank (c : Char) : Bool :=
  c.toNat = 0x20 || (0x09 ≤ c.toNat && c.toNat ≤ 0x0d)

/-- The spaces beyond ASCII. -/
def isWideBlank (c : Char) : Bool :=
  let n := c.toNat
  n = 0x85 || n = 0xa0 || n = 0x1680 || (0x2000 ≤ n && n ≤ 0x200a) || n = 0x2028 || n = 0x2029 ||
    n = 0x202f || n = 0x205f || n = 0x3000

/-- Take the blanks of ASCII off both ends. -/
def trimBlanks (cs : List Char) : List Char :=
  ((cs.dropWhile isAsciiBlank).reverse.dropWhile isAsciiBlank).reverse

end BlockStudio
