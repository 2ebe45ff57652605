/-!
# Exact values of binary floating-point numbers

A finite double is a signed integer times a power of two. `Binary.ofFloat?` takes a double apart
into that form, and `nearest` goes back: it gives the double closest to a fraction, a half going
to the even neighbour. Whole parts, roundings and remainders are computed on the exact form, so
they are integers of any size and never themselves rounded.
-/

namespace BlockStudio

def twoTo (n : Nat) : Nat :=
  Nat.pow 2 n

def tenTo (n : Nat) : Nat :=
  Nat.pow 10 n

/-- A finite double taken apart: `±mantissa · 2 ^ exponent`. -/
structure Binary where
  /-- Whether the sign bit is set; zero has a sign too. -/
  negative : Bool
  /-- The integer significand. -/
  mantissa : Nat
  /-- The power of two that scales the significand. -/
  exponent : Int
  deriving DecidableEq, Repr

namespace Binary

/-- The exact form of a finite double; infinities and NaN have none. -/
def ofFloat? (x : Float) : Option Binary :=
  let bits : Nat := x.toBits.toNat
  let negative := decide (twoTo 63 ≤ bits)
  let biased : Nat := bits / twoTo 52 % twoTo 11
  let fraction : Nat := bits % twoTo 52
  if biased = 2047 then none
  else if biased = 0 then some ⟨negative, fraction, -1074⟩
  else some ⟨negative, fraction + twoTo 52, (biased : Int) - 1075⟩

/-- The numerator of the absolute value, over `den`. -/
def num (b : Binary) : Nat :=
  b.mantissa * twoTo b.exponent.toNat

/-- The denominator of the absolute value, a power of two. -/
def den (b : Binary) : Nat :=
  twoTo (-b.exponent).toNat

/-- Put the sign of `b` on a magnitude. -/
def signed (b : Binary) (n : Nat) : Int :=
  if b.negative then -(n : Int) else n

def trunc (b : Binary) : Int :=
  b.signed (b.num / b.den)

/-- The greatest integer not above the value. -/
def floor (b : Binary) : Int :=
  Int.fdiv (b.signed b.num) b.den

def ceil (b : Binary) : Int :=
  -Int.fdiv (-b.signed b.num) b.den

def isWhole (b : Binary) : Bool :=
  b.num % b.den = 0

end Binary

/-- `num / den` rounded to the nearest integer, a half to the even one; `den` is positive. -/
def roundDiv (num den : Nat) : Nat :=
  let q := num / den
  let r := num % den
  if 2 * r < den then q
  else if 2 * r = den then q + q % 2
  else q + 1

namespace Binary

/-- The nearest integer, a half to the even one. -/
def round (b : Binary) : Int :=
  b.signed (roundDiv b.num b.den)

/-- The double nearest to `num / den`, a half to the even neighbour; `den` is positive. -/
def nearest (negative : Bool) (num den : Nat) : Float :=
  let sign : Nat := if negative then twoTo 63 else 0
  if num = 0 then Float.ofBits sign.toUInt64
  else
    -- an exponent that leaves 53 or 54 bits in the quotient, or the least one there is
    let estimate : Int := (num.log2 : Int) - den.log2 - 53
    let scale (e : Int) : Nat × Nat := (num * twoTo (-e).toNat, den * twoTo e.toNat)
    let fits (e : Int) : Bool := (scale e).1 < twoTo 53 * (scale e).2
    let e := if fits estimate then estimate else estimate + 1
    let e := max e (-1074)
    let q := roundDiv (scale e).1 (scale e).2
    let magnitude : Int := if q < twoTo 52 then q else (e + 1074) * twoTo 52 + q
    if magnitude < 2047 * twoTo 52 then Float.ofBits (sign + magnitude.toNat).toUInt64
    else Float.ofBits (sign + 2047 * twoTo 52).toUInt64

def zero (negative : Bool) : Float :=
  Float.ofBits (if negative then twoTo 63 else 0).toUInt64

end Binary

/-- The double nearest to an integer; infinite when it lies beyond the largest double. -/
def floatOfInt (n : Int) : Float :=
  Binary.nearest (n < 0) n.natAbs 1

/-- The double nearest to a rational number. -/
def floatOfRat (q : Rat) : Float :=
  Binary.nearest (q.num < 0) q.num.natAbs q.den

def signBit (x : Float) : Bool :=
  twoTo 63 ≤ x.toBits.toNat

/-- The remainder of `x` by `y` with the sign of `x`, computed exactly; `y` is not zero. -/
def truncRem (x y : Float) : Float :=
  match Binary.ofFloat? x, Binary.ofFloat? y with
  | some a, some b =>
    let num := a.num * b.den % (b.num * a.den)
    Binary.nearest a.negative num (a.den * b.den)
  | some _, none => if y.isNaN then y else x
  | none, _ => Float.ofBits 0x7ff8000000000000

/-- The remainder of `x` by `y` with the sign of `y`; `y` is not zero. -/
def floorRem (x y : Float) : Float :=
  let r := truncRem x y
  if r.isNaN then r
  else if r == 0 then Binary.zero (signBit y)
  else if signBit r == signBit y then r
  else r + y

end BlockStudio
