import BlockStudio.Fault
import BlockStudio.Number.Decimal

/-!
# Numbers of two kinds

A number is an integer of any size or a double. Arithmetic on two integers is exact, any other
arithmetic is that of doubles, and the kind is kept because it shows in written numbers.
Comparison is exact across the kinds.
-/

namespace BlockStudio

inductive Num where
  | int (n : Int)
  | float (x : Float)

namespace Num

instance : Inhabited Num := ⟨int 0⟩

instance (n : Nat) : OfNat Num n := ⟨int n⟩

instance : Coe Int Num := ⟨int⟩

instance : Coe Nat Num := ⟨fun n => int n⟩

def toFloat : Num → Float
  | int n => floatOfInt n
  | float x => x

def add : Num → Num → Num
  | int a, int b => int (a + b)
  | a, b => float (a.toFloat + b.toFloat)

def sub : Num → Num → Num
  | int a, int b => int (a - b)
  | a, b => float (a.toFloat - b.toFloat)

def mul : Num → Num → Num
  | int a, int b => int (a * b)
  | a, b => float (a.toFloat * b.toFloat)

def neg : Num → Num
  | int a => int (-a)
  | float x => float (-x)

instance : Add Num := ⟨add⟩
instance : Sub Num := ⟨sub⟩
instance : Mul Num := ⟨mul⟩
instance : Neg Num := ⟨neg⟩

/-- The quotient, always a double; that of two integers is rounded once. -/
def div : Num → Num → Except Fault Num
  | int a, int b =>
    if b = 0 then .error .divisionByZero
    else .ok (float (Binary.nearest (decide (a < 0) != decide (b < 0)) a.natAbs b.natAbs))
  | a, b =>
    if b.toFloat == 0 then .error .floatDivisionByZero else .ok (float (a.toFloat / b.toFloat))

/-- Compare the exact values; NaN compares with nothing. -/
def compare? : Num → Num → Option Ordering
  | int a, int b => some (compare a b)
  | float x, float y =>
    if x < y then some .lt else if x == y then some .eq else if y < x then some .gt else none
  | int a, float y =>
    match Binary.ofFloat? y with
    | some b => some (compare (a * b.den) (b.signed b.num))
    | none => if y.isNaN then none else some (if signBit y then .gt else .lt)
  | float x, int b =>
    match Binary.ofFloat? x with
    | some a => some (compare (a.signed a.num) (b * a.den))
    | none => if x.isNaN then none else some (if signBit x then .lt else .gt)

def lt (a b : Num) : Bool :=
  a.compare? b == some .lt

def le (a b : Num) : Bool :=
  a.compare? b == some .lt || a.compare? b == some .eq

def eq (a b : Num) : Bool :=
  a.compare? b == some .eq

/-- The larger of two numbers, the first one when they are equal or incomparable. -/
def max (a b : Num) : Num :=
  if a.lt b then b else a

/-- The smaller of two numbers, the first one when they are equal or incomparable. -/
def min (a b : Num) : Num :=
  if b.lt a then b else a

def trunc : Num → Except Fault Int
  | int n => .ok n
  | float x =>
    match Binary.ofFloat? x with
    | some b => .ok b.trunc
    | none => .error (if x.isNaN then .nanToInteger else .infinityToInteger)

/-- The quotient by a positive integer, rounded down; the kind stays. -/
def floorDiv (a : Num) (n : Nat) : Num :=
  match a with
  | int a => int (Int.fdiv a n)
  | float x =>
    match Binary.ofFloat? x with
    | some b => float (floatOfInt (Int.fdiv (b.signed b.num) (b.den * n)))
    | none => float x

def isZero : Num → Bool
  | int n => n == 0
  | float x => x == 0

/-- The written form: digits of an integer, the shortest text of a double. -/
def text : Num → String
  | int n => Int.repr n
  | float x => floatText x

end Num

/-- The exact rational `q` as a double. -/
def Num.ofRat (q : Rat) : Num :=
  .float (floatOfRat q)

end BlockStudio
