import BlockStudio.Editor.View

/-!
# Variables of a project

The declared variables are kept in order and without repetition. Renaming one goes through the
blocks of all stacks; deleting one leaves the slots that held it unfilled.
-/

namespace BlockStudio

namespace Value

def nameable : Value → Except Fault Unit
  | .list _ => .error (.unhashable "list")
  | _ => .ok ()

def sameName (a b : Value) : Bool :=
  a.identical b || a.equalPlain b

/-- The order of names: numbers by value, then texts by their characters. -/
def nameBefore : Value → Value → Bool
  | .text a, .text b => decide (a < b)
  | .text _, _ => false
  | _, .text _ => true
  | a, b =>
    match a.parts?, b.parts? with
    | some (x, _), some (y, _) => x.lt y
    | Option.none, some _ => true
    | _, Option.none => false

end Value

def insertName (name : Value) : List Value → List Value
  | [] => [name]
  | n :: rest =>
    if n.sameName name then n :: rest
    else if name.nameBefore n then name :: n :: rest
    else n :: insertName name rest

def hasName (names : List Value) (name : Value) : Bool :=
  names.any (·.sameName name)

namespace Edit

/-- Walk through the values of a block from a slot on. `reading` is the block whose slots tell what
the values are; after a body it is the last block of that body. `nested` goes through the blocks
on the way. -/
def renameValues (nested : BlockId → Edit Unit) (old new : Value) :
    BlockId → Nat → List Value → Edit Unit
  | _, _, [] => return
  | reading, i, v :: rest => do
    let c ← slotComponent reading i
    if c.kind = .varName then
      if ← ofExcept ((← store).equal v old) then assign reading i new
      renameValues nested old new reading (i + 1) rest
    else
      match v with
      | .stack body =>
        let blocks := (← store).blocksOf body
        blocks.forM nested
        renameValues nested old new (blocks.getLast?.getD reading) (i + 1) rest
      | .block id =>
        nested id
        renameValues nested old new reading (i + 1) rest
      | _ => renameValues nested old new reading (i + 1) rest

/-- Rename a variable in a block, nested to a depth of `fuel`. -/
def renameInBlockTo (old new : Value) : Nat → BlockId → Edit Unit
  | 0, _ => return
  | fuel + 1, id => do
    renameValues (renameInBlockTo old new fuel) old new id 0 ((← store).block id).values

def renameInBlock (old new : Value) (id : BlockId) : Edit Unit := do
  renameInBlockTo old new (← store).depth id

def renameEverywhere (old new : Value) : Edit Unit := do
  for (stack, i) in (← get).workspace.zipIdx do
    for b in (← store).blocksOf stack do
      renameInBlock old new b
    redraw i

def forgetName (name : Value) : Edit Unit := do
  ofExcept name.nameable
  let e ← get
  if hasName e.globals name then
    set { e with globals := e.globals.filter fun n => !n.sameName name }
  else throw (.unknownKey (e.store.shown name))

def declareName (name : Value) : Edit Unit := do
  ofExcept name.nameable
  modify fun e => { e with globals := insertName name e.globals }

/-- Answer the question whether to rename or to delete a variable: only a yes counts. With no new
name the variable is deleted. -/
def answerRename (button : Button) (old : Value) (new : Option String) : Edit Unit := do
  modify fun e => { e with dialog := none }
  if button = .yes then
    forgetName old
    match new with
    | some name =>
      declareName (.text name)
      renameEverywhere old (.text name)
    | none => renameEverywhere old .none

/-- Answer the question for the name of a new variable. A name that is taken changes nothing. -/
def answerCreate (button : Button) (name : String) (spot : Spot) (stackIndex : Int) :
    Edit Unit := do
  modify fun e => { e with dialog := none }
  if button = .confirm then
    if !hasName (← get).globals (.text name) then
      assign spot.block spot.slot (.text name)
      redraw stackIndex
      declareName (.text name)

/-- Answer the question for the name of a new variable of a stack: stacks have none. -/
def answerCreateLocal (button : Button) : Edit Unit := do
  modify fun e => { e with dialog := none }
  if button = .confirm then throw (.noAttribute "Stack" "variables")

end Edit

end BlockStudio
