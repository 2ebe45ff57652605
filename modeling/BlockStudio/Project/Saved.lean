import BlockStudio.Json.Basic
import BlockStudio.Language.Show

/-!
# Saved blocks and stacks

A saved block is an object with the name of its definition and the values of its slots, a saved
stack an object with its blocks and its place; an object is told to be a block by its `definition`
field. A block whose definition is not known comes back as a stand-in without values, and what was
saved in it is not looked at.
-/

namespace BlockStudio

namespace Json

/-- The name of the kind of a JSON value, as fault messages give it. -/
def kindName : Json → String
  | null => "NoneType"
  | bool _ => "bool"
  | int _ => "int"
  | float _ => "float"
  | text _ => "str"
  | array _ => "list"
  | object _ => "dict"

/-- A named field; everything that is not an object with that field is a fault. -/
def item (name : String) : Json → Except Fault Json
  | object fields =>
    match fields.lookup name with
    | some v => .ok v
    | none => .error (.unknownKey (quoted name))
  | text _ => .error .textByName
  | array _ => .error .listByName
  | v => .error (.notSubscriptable v.kindName)

/-- The items to walk through: those of a list, the characters of a text, the names of an
object. -/
def walk : Json → Except Fault (List Json)
  | array items => .ok items
  | text s => .ok (s.toList.map fun c => text (String.singleton c))
  | object fields => .ok (fields.map fun f => text f.1)
  | v => .error (.notIterable v.kindName)

/-- A value without blocks and stacks. -/
def plainValue : Json → Value
  | null => .none
  | bool b => .bool b
  | int n => .int n
  | float x => .float x
  | text s => .text s
  | array items => .list (plainValues items)
  | object _ => .none
where
  plainValues : List Json → List Value
    | [] => []
    | v :: rest => plainValue v :: plainValues rest

end Json

/-- Steps that build up the store and can fail; what was built before a fault stays. -/
abbrev Building := EStateM Fault Store

namespace Building

def ofExcept {α : Type} : Except Fault α → Building α
  | .ok a => pure a
  | .error e => throw e

def addBlock (definition : Definition) (values : List Value) : Building BlockId :=
  modifyGet fun s => s.addBlock definition values

def addStack (blocks : List BlockId) (position : Option (List Value)) : Building StackId :=
  modifyGet fun s => s.addStack blocks position

end Building

namespace Saved

/-- The definition that a saved block names, if it is known. -/
def definition? (definitions : List Definition) (json : Json) : Except Fault (Option Definition) :=
  (json.item "definition").map fun name =>
    match name with
    | .text id => Catalogue.find? definitions id
    | _ => none

def position (json : Json) : Except Fault (Option (List Value)) :=
  match json with
  | .null => .ok none
  | json => json.walk.map fun items => some (items.map Json.plainValue)

mutual

/-- Read a saved block, nested to a depth of `fuel`. -/
def readBlock (definitions : List Definition) : Nat → Json → Building BlockId
  | 0, _ => modifyGet (·.addRetired)
  | fuel + 1, json => do
    match ← Building.ofExcept (definition? definitions json) with
    | none => modifyGet (·.addRetired)
    | some d =>
      let values ← Building.ofExcept (json.item "values" >>= Json.walk)
      Building.addBlock d (← values.mapM (readValue definitions fuel))

/-- Read a saved value, nested to a depth of `fuel`. -/
def readValue (definitions : List Definition) : Nat → Json → Building Value
  | 0, json => pure json.plainValue
  | fuel + 1, json =>
    match json with
    | .object fields =>
      if (fields.lookup "definition").isSome then
        .block <$> readBlock definitions fuel json
      else .stack <$> readStack definitions fuel json
    | json => pure json.plainValue

/-- Read a saved stack, nested to a depth of `fuel`. -/
def readStack (definitions : List Definition) : Nat → Json → Building StackId
  | 0, _ => Building.addStack [] none
  | fuel + 1, json => do
    let items ← Building.ofExcept (json.item "blocks" >>= Json.walk)
    let blocks ← items.mapM (readBlock definitions fuel)
    let place ← Building.ofExcept (json.item "pos" >>= position)
    Building.addStack blocks place

end

def nesting : Json → Nat
  | .array items => 1 + nestingItems items
  | .object fields => 1 + nestingFields fields
  | _ => 0
where
  nestingItems : List Json → Nat
    | [] => 0
    | v :: rest => max (nesting v) (nestingItems rest)
  nestingFields : List (String × Json) → Nat
    | [] => 0
    | (_, v) :: rest => max (nesting v) (nestingFields rest)

def block (definitions : List Definition) (json : Json) : Building BlockId :=
  readBlock definitions (2 * nesting json + 2) json

def stack (definitions : List Definition) (json : Json) : Building StackId :=
  readStack definitions (2 * nesting json + 2) json

end Saved

namespace Store

/-- The saved form of values, given those of blocks and stacks. -/
def savedWith (block : BlockId → Except Fault Json) (stack : StackId → Except Fault Json) :
    Value → Except Fault Json
  | .none => .ok .null
  | .bool b => .ok (.bool b)
  | .num (.int n) => .ok (.int n)
  | .num (.float x) => .ok (.float x)
  | .complex .. => .error (.notStorable "complex")
  | .text s => .ok (.text s)
  | .list items => Json.array <$> savedItems items
  | .block id => block id
  | .stack id => stack id
where
  savedItems : List Value → Except Fault (List Json)
    | [] => .ok []
    | v :: rest => do
      let j ← savedWith block stack v
      return j :: (← savedItems rest)

mutual

/-- The saved form of a block, nested to a depth of `fuel`. -/
def savedBlockTo (s : Store) : Nat → BlockId → Except Fault Json
  | 0, _ => .ok .null
  | fuel + 1, id => do
    let b := s.block id
    let values ← b.values.mapM (savedWith (s.savedBlockTo fuel) (s.savedStackTo fuel))
    return .object [("definition", .text b.definition.id), ("values", .array values)]

/-- The saved form of a stack, nested to a depth of `fuel`. -/
def savedStackTo (s : Store) : Nat → StackId → Except Fault Json
  | 0, _ => .ok .null
  | fuel + 1, id => do
    let blocks ← (s.blocksOf id).mapM (s.savedBlockTo fuel)
    let position ←
      match (s.stack id).position with
      | none => pure Json.null
      | some p => Json.array <$> p.mapM (savedWith (s.savedBlockTo fuel) (s.savedStackTo fuel))
    return .object [("blocks", .array blocks), ("pos", position)]

end

def savedBlock (s : Store) (id : BlockId) : Except Fault Json :=
  s.savedBlockTo s.depth id

def savedStack (s : Store) (id : StackId) : Except Fault Json :=
  s.savedStackTo s.depth id

/-- The saved form of a block or a stack; other values have none. -/
def savedValue (s : Store) : Value → Except Fault Json
  | .block id => s.savedBlock id
  | .stack id => s.savedStack id
  | v => .error (.noAttribute v.kindName "serialize")

end Store

end BlockStudio
