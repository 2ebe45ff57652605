import BlockStudio.Language.Store
import BlockStudio.Number.Reading

/-!
# Values as texts

`Store.shown` shows a value so that its kind can be told (texts are quoted), `Store.plain` is the
text of a value by itself, and `Store.brief` is what programs print: numbers, and texts that spell
numbers, are cut to six significant digits.
-/

namespace BlockStudio

/-- Items between brackets with commas. -/
def bracketed (left right : String) (items : List String) : String :=
  left ++ ", ".intercalate items ++ right

/-- A fixed row of items; a single one keeps its comma. -/
def tupleText (items : List String) : String :=
  match items with
  | [item] => "(" ++ item ++ ",)"
  | items => bracketed "(" ")" items

/-- The style of the parts of a complex number: as `NumberStyle.full`, without `.0`. -/
def NumberStyle.part : NumberStyle := { NumberStyle.full with pointZero := false }

def partText (x : Float) : String :=
  match Binary.ofFloat? x with
  | some b => NumberStyle.part.write b.negative (Decimal.shortest b)
  | none => specialText x

/-- A complex number; a real part of plain zero is left out. -/
def complexText (re im : Float) : String :=
  if re == 0 && !signBit re then partText im ++ "j"
  else
    let tail := partText im
    let sign := if tail.startsWith "-" then "" else "+"
    "(" ++ partText re ++ sign ++ tail ++ "j)"

def rectText (r : Rect Int) : String :=
  bracketed "(" ")" [Int.repr r.x, Int.repr r.y, Int.repr r.w, Int.repr r.h]

namespace Store

/-- Show values, given how blocks and stacks are shown. -/
def shownWith (block : BlockId → String) (stack : StackId → String) : Value → String
  | .none => "None"
  | .bool b => if b then "True" else "False"
  | .num n => n.text
  | .complex re im => complexText re im
  | .text s => quoted s
  | .list items => bracketed "[" "]" (shownItems items)
  | .block id => block id
  | .stack id => stack id
where
  shownItems : List Value → List String
    | [] => []
    | v :: rest => shownWith block stack v :: shownItems rest

mutual

/-- Show a block and what its slots hold, to a depth of `fuel`. -/
def blockText (s : Store) : Nat → BlockId → String
  | 0, _ => "..."
  | fuel + 1, id =>
    let b := s.block id
    "Block(\"" ++ b.definition.id ++ "\", " ++
      bracketed "[" "]" (b.values.map (shownWith (s.blockText fuel) (s.stackText fuel))) ++
      ", rect=" ++ rectText b.rect ++ ")"

/-- Show a stack and its blocks, to a depth of `fuel`. -/
def stackText (s : Store) : Nat → StackId → String
  | 0, _ => "..."
  | fuel + 1, id =>
    let position :=
      match (s.stack id).position with
      | none => "None"
      | some p => tupleText (p.map (shownWith (s.blockText fuel) (s.stackText fuel)))
    "Stack(" ++ bracketed "[" "]" ((s.blocksOf id).map (s.blockText fuel)) ++ ", " ++ position ++
      ")"

end

/-- Show a value so that its kind can be told. -/
def shown (s : Store) (v : Value) : String :=
  shownWith (s.blockText s.depth) (s.stackText s.depth) v

def plain (s : Store) : Value → String
  | .text t => t
  | v => s.shown v

end Store

namespace Value

/-- The double that a value stands for: numbers, truth values and texts that spell a number. -/
def toFloat : Value → Except Fault Float
  | .bool b => .ok (if b then 1 else 0)
  | .num (.int n) =>
    let x := floatOfInt n
    if x.isInf then .error .beyondFloat else .ok x
  | .num (.float x) => .ok x
  | .text s =>
    match readNumber? s with
    | some x => .ok x
    | Option.none => .error (.notNumeric s)
  | v => .error (.notReal v.kindName)

/-- Whether a value is a number or spells one. Values that are neither numbers nor texts are a
fault. -/
def isNumeric (v : Value) : Except Fault Bool :=
  match v with
  | .num _ | .bool _ => .ok true
  | v =>
    match v.toFloat with
    | .ok _ => .ok true
    | .error e => if e.isMisread then .ok false else .error e

end Value

namespace Store

/-- What programs print for a value. -/
def brief (s : Store) (v : Value) : Except Fault String := do
  if ← v.isNumeric then return briefText (← v.toFloat)
  else return s.plain v

end Store

end BlockStudio
