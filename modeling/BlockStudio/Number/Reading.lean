import BlockStudio.Number.Binary
import BlockStudio.Text.Blank
import BlockStudio.Text.Digit

/-!
# Reading numbers

What counts as a typed number: an optional sign, then `inf`, `infinity` or `nan` in any case, or
digits with an optional point and exponent. Blanks around the number do not count, a single
underscore may stand between two digits, and digits of any script are digits. The value is the
nearest double.
-/

namespace BlockStudio

/-- Bring a character to ASCII: wide blanks become spaces and digits of any script become `0` to
`9`; what is left beyond ASCII is in no number. -/
def plainChar (c : Char) : Char :=
  if c.toNat < 127 then c
  else if isWideBlank c then ' '
  else
    match digitValue? c with
    | some d => Char.ofNat (48 + d)
    | none => '?'

/-- Take out underscores that stand between two digits; any other underscore is refused. The first
argument says whether the character before was a digit. -/
def dropUnderscores : Bool → List Char → Option (List Char)
  | _, [] => some []
  | afterDigit, '_' :: c :: rest =>
    if afterDigit && isAsciiDigit c then (dropUnderscores true rest).map (c :: ·) else none
  | _, c :: rest =>
    if c = '_' then none else (dropUnderscores (isAsciiDigit c) rest).map (c :: ·)

/-- Split off an optional sign; `true` is minus. -/
def takeSign : List Char → Bool × List Char
  | '-' :: rest => (true, rest)
  | '+' :: rest => (false, rest)
  | rest => (false, rest)

/-- The exponent part of a number, which has to reach the end of the text. -/
def readExponent? : List Char → Option Int
  | [] => some 0
  | c :: rest =>
    if c = 'e' || c = 'E' then
      let (negative, digits) := takeSign rest
      if digits.isEmpty || !digits.all isAsciiDigit then none
      else
        let n : Int := natOfDigits digits
        some (if negative then -n else n)
    else none

/-- The double nearest to `digits · 10 ^ exponent`. Beyond a few hundred places the answer is zero
or infinity whatever the digits are. -/
def floatOfDecimal (negative : Bool) (digits : Nat) (exponent : Int) : Float :=
  if digits = 0 then Binary.zero negative
  else
    -- a bound on the number of decimal digits
    let size : Int := digits.log2 / 3 + 1
    if exponent > 400 then Binary.nearest negative (tenTo 400) 1
    else if exponent + size < -400 then Binary.zero negative
    else Binary.nearest negative (digits * tenTo exponent.toNat) (tenTo (-exponent).toNat)

/-- An unsigned number of digits, an optional point and an optional exponent. -/
def readDecimal? (negative : Bool) (cs : List Char) : Option Float :=
  let whole := cs.takeWhile isAsciiDigit
  let rest := cs.dropWhile isAsciiDigit
  let (places, rest) :=
    match rest with
    | '.' :: r => (r.takeWhile isAsciiDigit, r.dropWhile isAsciiDigit)
    | r => ([], r)
  if whole.isEmpty && places.isEmpty then none
  else
    (readExponent? rest).map fun e =>
      floatOfDecimal negative (natOfDigits (whole ++ places)) (e - places.length)

def infinity (negative : Bool) : Float :=
  Float.ofBits (if negative then 0xfff0000000000000 else 0x7ff0000000000000)

def notANumber : Float :=
  Float.ofBits 0x7ff8000000000000

/-- A number written in plain characters, with its sign. -/
def readSigned? (cs : List Char) : Option Float :=
  let (negative, body) := takeSign cs
  let word := String.ofList (body.map Char.toLower)
  if word = "inf" || word = "infinity" then some (infinity negative)
  else if word = "nan" then some notANumber
  else readDecimal? negative body

/-- The number that a text spells, if it spells one. -/
def readNumber? (s : String) : Option Float :=
  let cs := trimBlanks (s.toList.map plainChar)
  (dropUnderscores false cs).bind readSigned?

end BlockStudio
