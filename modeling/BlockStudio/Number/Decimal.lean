import BlockStudio.Number.Binary

/-!
# Decimal forms of exact numbers

`Decimal.rounded` gives a fraction to a number of significant digits, `Decimal.shortest` gives the
fewest digits that read back as the same double, and `roundPlaces` keeps a number of places after
the point. A half goes to the even digit everywhere. How digits are spelt is a `NumberStyle`.
-/

namespace BlockStudio

/-- The number `digits · 10 ^ exponent`. -/
structure Decimal where
  /-- The significant digits, read as one integer. -/
  digits : Nat
  /-- The power of ten of the last digit. -/
  exponent : Int
  deriving DecidableEq, Repr

/-- `10 ^ e` as a numerator and a denominator. -/
def powerOfTen (e : Int) : Nat × Nat :=
  (tenTo e.toNat, tenTo (-e).toNat)

/-- Whether `10 ^ e ≤ num / den`. -/
def powerOfTenLe (e : Int) (num den : Nat) : Bool :=
  (powerOfTen e).1 * den ≤ num * (powerOfTen e).2

/-- The power of ten of the leading digit of the positive fraction `num / den`. -/
def leadingExponent (num den : Nat) : Int :=
  -- the binary logarithm brackets the decimal one within three candidates
  let estimate := Int.fdiv (((num.log2 : Int) - den.log2) * 30103) 100000
  if powerOfTenLe (estimate + 1) num den then estimate + 1
  else if powerOfTenLe estimate num den then estimate
  else estimate - 1

namespace Decimal

/-- Take trailing zeros off the digits; at most `fuel` of them. -/
def stripZeros : Nat → Decimal → Decimal
  | 0, d => d
  | fuel + 1, d =>
    if d.digits ≠ 0 ∧ d.digits % 10 = 0 then stripZeros fuel ⟨d.digits / 10, d.exponent + 1⟩
    else d

def normal (d : Decimal) : Decimal :=
  if d.digits = 0 then ⟨0, 0⟩ else stripZeros (d.digits.log2 + 1) d

/-- `num / den` to `count` significant digits, without trailing zeros. -/
def rounded (count num den : Nat) : Decimal :=
  if num = 0 then ⟨0, 0⟩
  else
    let e := leadingExponent num den - count + 1
    let (up, down) := powerOfTen e
    normal ⟨roundDiv (num * down) (den * up), e⟩

/-- The reals that round to a positive double, as fractions of a quarter unit in its last place,
and whether the end points belong to it. -/
structure Interval where
  low : Nat
  mid : Nat
  high : Nat
  /-- Whether both ends round to the double. -/
  closed : Bool

/-- The interval of reals that round to `±mantissa · 2 ^ exponent`; below a power of two the
neighbour is half as far away. -/
def Interval.of (b : Binary) : Interval where
  low := 4 * b.mantissa - (if b.mantissa = twoTo 52 ∧ b.exponent > -1074 then 1 else 2)
  mid := 4 * b.mantissa
  high := 4 * b.mantissa + 2
  closed := b.mantissa % 2 = 0

/-- Whether the grid point `d` lies in the interval, when `up / down` grid steps make a quarter
unit. -/
def Interval.holds (i : Interval) (up down d : Nat) : Bool :=
  if i.closed then i.low * up ≤ d * down && d * down ≤ i.high * up
  else i.low * up < d * down && d * down < i.high * up

/-- The grid point of the interval nearest to the double, if the grid has one there. -/
def Interval.pick? (i : Interval) (up down : Nat) : Option Nat :=
  let below := i.mid * up / down
  match i.holds up down below, i.holds up down (below + 1) with
  | true, true =>
    -- both neighbours read back: the nearer one wins, and of two equally near the even one
    some (roundDiv (i.mid * up) down)
  | true, false => some below
  | false, true => some (below + 1)
  | false, false => none

/-- Try grids of `count`, `count + 1`, … digits, at most `fuel` of them. -/
def search (b : Binary) (lead : Int) : Nat → Nat → Decimal
  | 0, count => rounded count b.num b.den
  | fuel + 1, count =>
    let e := lead - count + 1
    -- a quarter unit, `2 ^ (exponent - 2)`, in steps of `10 ^ e`
    let (tenUp, tenDown) := powerOfTen e
    let up := twoTo (b.exponent - 2).toNat * tenDown
    let down := twoTo (2 - b.exponent).toNat * tenUp
    match (Interval.of b).pick? up down with
    | some d => normal ⟨d, e⟩
    | none => search b lead fuel (count + 1)

/-- The fewest digits that read back as the same double; of those the nearest to it. -/
def shortest (b : Binary) : Decimal :=
  if b.mantissa = 0 then ⟨0, 0⟩
  else search b (leadingExponent b.num b.den) 17 1

end Decimal

/-- How a decimal number is spelt. -/
structure NumberStyle where
  /-- The least leading exponent that is written without an exponent. -/
  positionalFrom : Int
  /-- The first leading exponent that is written with an exponent. -/
  positionalBelow : Int
  /-- Whether a whole number keeps a point and a zero. -/
  pointZero : Bool

/-- Every digit that matters: positional from `0.0001` up to sixteen digits, and a whole number
keeps its `.0`. -/
def NumberStyle.full : NumberStyle := ⟨-4, 16, true⟩

/-- The brief style of printed numbers: positional from `0.0001` up to six digits, no trailing
zeros. -/
def NumberStyle.brief : NumberStyle := ⟨-4, 6, false⟩

def zeros (n : Nat) : String :=
  String.ofList (List.replicate n '0')

/-- Put zeros in front of a text up to a width. -/
def padZeros (width : Nat) (s : String) : String :=
  zeros (width - s.length) ++ s

/-- An exponent with its sign and at least two digits. -/
def exponentText (e : Int) : String :=
  "e" ++ (if e < 0 then "-" else "+") ++ padZeros 2 (Nat.repr e.natAbs)

/-- Spell a decimal number that has no trailing zeros. -/
def NumberStyle.write (style : NumberStyle) (negative : Bool) (d : Decimal) : String :=
  let s := (Nat.repr d.digits).toList
  let lead := d.exponent + s.length - 1
  let sign := if negative then "-" else ""
  let body :=
    if style.positionalFrom ≤ lead ∧ lead < style.positionalBelow then
      if 0 ≤ d.exponent then
        String.ofList s ++ zeros d.exponent.toNat ++ (if style.pointZero then ".0" else "")
      else if 0 ≤ lead then
        String.ofList (s.take (lead.toNat + 1)) ++ "." ++ String.ofList (s.drop (lead.toNat + 1))
      else
        "0." ++ zeros (-lead - 1).toNat ++ String.ofList s
    else
      String.ofList (s.take 1) ++
        (if s.length > 1 then "." ++ String.ofList (s.drop 1) else "") ++ exponentText lead
  sign ++ body

/-- The texts of infinities and of NaN. -/
def specialText (x : Float) : String :=
  if x.isNaN then "nan" else if signBit x then "-inf" else "inf"

/-- The shortest text that reads back as the same double. -/
def floatText (x : Float) : String :=
  match Binary.ofFloat? x with
  | some b => NumberStyle.full.write b.negative (Decimal.shortest b)
  | none => specialText x

/-- A double to six significant digits in the brief style. -/
def briefText (x : Float) : String :=
  match Binary.ofFloat? x with
  | some b => NumberStyle.brief.write b.negative (Decimal.rounded 6 b.num b.den)
  | none => specialText x

/-- A double with a fixed number of places after the point. -/
def fixedText (places : Nat) (x : Float) : String :=
  match Binary.ofFloat? x with
  | some b =>
    let s := padZeros (places + 1) (Nat.repr (roundDiv (b.num * tenTo places) b.den))
    let cs := s.toList
    let whole := String.ofList (cs.take (cs.length - places))
    let rest := String.ofList (cs.drop (cs.length - places))
    (if b.negative then "-" else "") ++ whole ++ (if places = 0 then "" else "." ++ rest)
  | none => specialText x

/-- The double nearest to `x` kept to `places` digits after the point, or before it when `places`
is negative. -/
def roundPlaces (places : Int) (x : Float) : Float :=
  match Binary.ofFloat? x with
  | some b =>
    if places > 323 then x
    else
      let (up, down) := powerOfTen places
      let n := roundDiv (b.num * up) (b.den * down)
      Binary.nearest b.negative (n * down) up
  | none => x

end BlockStudio
