import BlockStudio.Number.Num

/-!
# Powers and logarithms

Powers of doubles with the conventions of the language: zero to a negative power and results
beyond the largest double are faults, and a negative base with a fractional exponent gives a
complex number.
-/

namespace BlockStudio

/-- The value of a power. -/
inductive Power where
  | real (x : Float)
  | complex (re im : Float)

def isOddInteger (x : Float) : Bool :=
  match Binary.ofFloat? x with
  | some b => b.isWhole && b.trunc % 2 == 1
  | none => false

/-- Whether a double is an integer or infinite. -/
def isWholeFloat (x : Float) : Bool :=
  match Binary.ofFloat? x with
  | some b => b.isWhole
  | none => !x.isNaN

/-- The power of a negative base to a fractional exponent. -/
def complexPower (base exponent : Float) : Except Fault Power :=
  let length := Float.pow base.abs exponent
  let phase := Float.atan2 0 base * exponent
  let re := length * Float.cos phase
  let im := length * Float.sin phase
  if re.isInf || im.isInf then .error .complexRange else .ok (.complex re im)

/-- The power of a finite base other than zero to a finite exponent. -/
def finitePower (base exponent : Float) : Except Fault Power :=
  if base < 0 && !isWholeFloat exponent then complexPower base exponent
  else
    let negate := base < 0 && isOddInteger exponent
    let magnitude := if base.abs == 1 then 1 else Float.pow base.abs exponent
    if magnitude.isInf then .error .powerRange
    else .ok (.real (if negate then -magnitude else magnitude))

def power (base exponent : Float) : Except Fault Power :=
  if exponent == 0 then .ok (.real 1)
  else if base.isNaN then .ok (.real base)
  else if exponent.isNaN then .ok (.real (if base == 1 then 1 else exponent))
  else if exponent.isInf then
    if base.abs == 1 then .ok (.real 1)
    else if decide (exponent > 0) == decide (base.abs > 1) then .ok (.real exponent.abs)
    else .ok (.real 0)
  else if base.isInf then
    if exponent > 0 then .ok (.real (if isOddInteger exponent then base else base.abs))
    else .ok (.real (if isOddInteger exponent then Binary.zero (signBit base) else 0))
  else if base == 0 then
    if exponent < 0 then .error .zeroToNegative
    else .ok (.real (if isOddInteger exponent then base else 0))
  else finitePower base exponent

def divide (x y : Float) : Except Fault Float :=
  if y == 0 then .error .floatDivisionByZero else .ok (x / y)

/-- The natural logarithm; only positive numbers and NaN have one. -/
def naturalLog (x : Float) : Except Fault Float :=
  if x.isNaN then .ok x
  else if x > 0 then .ok (if x.isInf then x else Float.log x)
  else .error .mathDomain

def logBase (base x : Float) : Except Fault Float := do
  let top ← naturalLog x
  let bottom ← naturalLog base
  divide top bottom

/-- The integer that a rounding of a finite double gives. -/
def wholeBy (f : Binary → Int) (x : Float) : Except Fault Int :=
  match Binary.ofFloat? x with
  | some b => .ok (f b)
  | none => .error (if x.isNaN then .nanToInteger else .infinityToInteger)

end BlockStudio
