import BlockStudio.Language.Environment
import BlockStudio.Number.Power

/-!
# Operators

What the reporters that only compute give for the values of their slots. A slot that was not
supplied is read beyond the end of the list of values, which is a fault; that is also how `not` and
`ends with` always end, since they read a slot that their blocks do not have.
-/

namespace BlockStudio

namespace Operator

def arg (params : List Value) (i : Nat) : Except Fault Value :=
  match params[i]? with
  | some v => .ok v
  | none => .error (.outOfRange .list)

def number (params : List Value) (i : Nat) : Except Fault Float := do
  match ← arg params i with
  | .num n => return n.toFloat
  | _ => throw .badOperands

def chars (params : List Value) (i : Nat) : Except Fault (List Char) := do
  match ← arg params i with
  | .text s => return s.toList
  | _ => throw .badOperands

/-- An operation on two doubles. -/
def binary (f : Float → Float → Except Fault Value) (params : List Value) : Except Fault Value := do
  let x ← number params 0
  let y ← number params 1
  f x y

/-- A comparison of two doubles. -/
def compareBy (f : Float → Float → Bool) : List Value → Except Fault Value :=
  binary fun x y => .ok (.bool (f x y))

/-- An operation on one double. -/
def single (f : Float → Except Fault Value) (params : List Value) : Except Fault Value := do
  f (← number params 0)

def powerValue (x y : Float) : Except Fault Value := do
  match ← power x y with
  | .real z => return .float z
  | .complex re im => return .complex re im

/-- The character at a place, which may count from the end when it is negative. -/
def charAt (cs : List Char) (i : Int) : Except Fault Value :=
  if i < -(twoTo 63 : Int) || (twoTo 63 : Int) ≤ i then .error .indexTooWide
  else
    let j := if i < 0 then i + cs.length else i
    match if j < 0 then none else cs[j.toNat]? with
    | some c => .ok (.text (String.singleton c))
    | none => .error (.outOfRange .text)

/-- Whether two values are equal when both are read as numbers. -/
def equalNumbers (params : List Value) : Except Fault Bool := do
  let x ← (← arg params 0).toFloat
  let y ← (← arg params 1).toFloat
  return x == y

/-- Whether two values are printed alike. -/
def equalTexts (store : Store) (params : List Value) : Except Fault Bool := do
  let x ← store.brief (← arg params 0)
  let y ← store.brief (← arg params 1)
  return x == y

/-- Whether the first two values both are or spell numbers. -/
def bothNumeric (params : List Value) : Except Fault Bool := do
  if ← (← arg params 0).isNumeric then (← arg params 1).isNumeric else return false

/-- What a reporter gives for the values of its slots; other blocks give nothing here. -/
def value (store : Store) (action : Action) (params : List Value) : Except Fault Value :=
  match action with
  | .add => binary (fun x y => .ok (.float (x + y))) params
  | .subtract => binary (fun x y => .ok (.float (x - y))) params
  | .multiply => binary (fun x y => .ok (.float (x * y))) params
  | .divide => binary (fun x y => Value.float <$> divide x y) params
  | .power => binary powerValue params
  | .remainder =>
    binary (fun x y =>
      if y == 0 then .error .remainderByZero else .ok (.float (floorRem x y))) params
  | .parseNumber => do return .float (← (← arg params 0).toFloat)
  | .convertBase => do
    let _ ← arg params 0
    let _ ← arg params 1
    throw .notInteger
  | .round => single (fun x => Value.int <$> wholeBy Binary.round x) params
  | .floor => single (fun x => Value.int <$> wholeBy Binary.floor x) params
  | .ceiling => single (fun x => Value.int <$> wholeBy Binary.ceil x) params
  | .absolute => single (fun x => .ok (.float x.abs)) params
  | .negate => single (fun x => .ok (.float (-x))) params
  | .root => do
    let x ← number params 1
    let y ← divide 1 (← number params 0)
    powerValue x y
  | .logarithm => do
    let x ← number params 1
    let base ← number params 0
    return .float (← logBase base x)
  | .greater => compareBy (fun x y => x > y) params
  | .greaterEqual => compareBy (fun x y => x ≥ y) params
  | .less => compareBy (fun x y => x < y) params
  | .lessEqual => compareBy (fun x y => x ≤ y) params
  | .truth | .truthOf => do return .bool (← arg params 0).truth
  | .not => do return .bool !(← arg params 1).truth
  | .and => do
    let a ← arg params 0
    if a.truth then arg params 1 else return a
  | .or => do
    let a ← arg params 0
    if a.truth then return a else arg params 1
  | .xor => do return .bool ((← arg params 0).truth != (← arg params 1).truth)
  | .join => do
    let a ← store.brief (← arg params 0)
    let b ← store.brief (← arg params 1)
    return .text (a ++ b)
  | .toText => do return .text (← store.brief (← arg params 0))
  | .charAt => do
    let cs ← chars params 1
    let i ← wholeBy Binary.trunc ((← number params 0) - 1)
    charAt cs i
  | .textLength => do return .int (← chars params 0).length
  | .textContains => do
    let pattern ← chars params 1
    return .bool (occursIn pattern (← chars params 0))
  | .startsWith => do
    let cs ← chars params 0
    return .bool ((← chars params 1).isPrefixOf cs)
  | .endsWith => do
    let cs ← chars params 2
    return .text (String.ofList (replaceAll (← chars params 0) (← chars params 1) cs))
  | .removeAll => do
    let cs ← chars params 1
    return .text (String.ofList (replaceAll (← chars params 0) [] cs))
  | _ => .ok .none

end Operator

end BlockStudio
