import BlockStudio.Language.Kind
import BlockStudio.Language.Value
import BlockStudio.Place

/-!
# Block definitions

A definition is the blueprint of a block: what it is called, what stands on it from left to right,
what colour it has, what it gives, and what it does. Two definitions are the same only when they
have the same origin, whatever they look like.
-/

namespace BlockStudio

/-- A label or a slot of a block. -/
structure Component where
  kind : SlotKind
  default : Value
  text : Option String
  deriving Inhabited

/-- What a block does when it runs. -/
inductive Action where
  /-- Does nothing and gives nothing to run. -/
  | inert
  | start | sleep | repeatTimes | forEach | whileTrue | ifThen | ifElse | attempt
  | breakLoop | continueLoop | quit
  | ask | readFile | say | writeFile
  | add | subtract | multiply | divide | power | remainder | random | parseNumber | convertBase
  | round | floor | ceiling | absolute | negate | root | logarithm
  | equal | unequal | greater | greaterEqual | less | lessEqual
  | truth | not | and | or | xor | truthOf
  | join | toText | charAt | textLength | textContains | startsWith | endsWith | removeAll
  | getVariable | setVariable | increment | decrement
  deriving DecidableEq, Repr, Inhabited

/-- Where a definition comes from; this is its identity. -/
inductive Origin where
  | catalogue (index : Nat)
  /-- A stand-in for a definition that is no longer known, numbered in the order they were made. -/
  | retired (index : Nat)
  | ellipsis
  deriving DecidableEq, Repr, Inhabited

inductive Paint where
  | clear
  /-- Red, green and blue, and what else is given. -/
  | parts (values : List Num)
  /-- A kind of data stands where a colour should. -/
  | kind (t : DataType)
  deriving Inhabited

/-- The blueprint of a block. -/
structure Definition where
  origin : Origin
  /-- The name under which saved blocks refer to it. -/
  id : String
  blockType : BlockType
  components : List Component
  color : Paint
  outputType : DataType
  action : Action
  deriving Inhabited

namespace Definition

/-- The slots, without the labels. -/
def inputs (d : Definition) : List Component :=
  d.components.filter fun c => decide (c.kind ≠ .label)

def countInputs (d : Definition) : Nat :=
  d.inputs.length

/-- The slot with a given number, counted from the back when negative. -/
def input? (d : Definition) (i : Int) : Option Component :=
  itemAt? d.inputs i

/-- Whether two definitions are one and the same. -/
def same (d e : Definition) : Bool :=
  d.origin == e.origin

end Definition

namespace Component

/-- How a component looks on a block that is shown as text; a label without text has no look. -/
def sketch? (c : Component) : Option String :=
  match c.kind with
  | .label => c.text
  | .text => some "[]"
  | .number => some "()"
  | .boolean => some "<>"
  | .varName => some "[ v]"
  | .statement => some "[>  >]"
  | .block | .any => some "\x7b\x7d"

def shown (c : Component) : String :=
  "C(" ++ c.kind.name ++ ", " ++ (c.text.map quoted).getD "None" ++ ")"

end Component

namespace Definition

/-- The looks of the components, or a fault at the first label without text. -/
def sketches : Nat → List Component → Except Fault (List String)
  | _, [] => .ok []
  | i, c :: rest =>
    match c.sketch? with
    | some s => (sketches (i + 1) rest).map (s :: ·)
    | none => .error (.labelWithoutText i "NoneType")

/-- A definition shown as text; what gives a value stands in parentheses. -/
def shown (d : Definition) : Except Fault String := do
  let line := " ".intercalate (← sketches 0 d.components)
  return if d.blockType = .reporter then "(" ++ line ++ ")" else line

end Definition

end BlockStudio
