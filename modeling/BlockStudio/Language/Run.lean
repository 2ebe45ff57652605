import BlockStudio.Language.Operator

/-!
# Running programs

A running program is a list of tasks, the innermost first; the tasks behind it wait for it to end.
`resume` works on the list until a value is given, which is one step of the program, and hands back
the tasks that are left. Loops wait in the list while their bodies run, so ending a loop is finding
the nearest one in the list, and an attempt that waits in the list catches what goes wrong in front
of it.

A block evaluates its slots before it runs. A block in a slot is run until it gives its first
value, and as long as that value is itself a block, that one is run in its place. `demand` does
this, to a bounded depth; the number of moves within a step is bounded too, and using up a bound is
an exit of its own.
-/

namespace BlockStudio

/-- A part of a program that is running or waits for the part in front of it. -/
inductive Task where
  /-- A block whose slots are evaluated and that has not begun. -/
  | fresh (block : BlockId) (action : Action) (params : List Value)
  /-- The body in a slot is about to begin. -/
  | body (params : List Value) (slot : Nat)
  /-- A stack is about to begin with the row that it shows then. -/
  | stack (id : StackId)
  /-- A row of blocks, from a place on. -/
  | row (row : RowId) (next : Nat)
  /-- A counted loop with this many rounds left. -/
  | counted (left : Nat) (params : List Value)
  /-- A loop over these remaining values. -/
  | listed (items : List Value) (params : List Value)
  /-- A loop that asks its condition before every round. -/
  | conditional (block : BlockId) (params : List Value)
  /-- An attempt, which waits for what it tries. -/
  | guarded (params : List Value)
  | sleeping
  /-- A comparison that has compared numbers and still compares texts. -/
  | retelling (negated : Bool) (params : List Value)
  /-- The characters of a typed line that are still to be given. -/
  | letters (cs : List Char)

/-- What became of a task. -/
inductive Move where
  /-- It gives a value and leaves these tasks. -/
  | give (v : Value) (rest : List Task)
  /-- It gives no value now and leaves these tasks. -/
  | go (rest : List Task)

/-- What a block hands over when its slots are evaluated. -/
inductive Begun where
  | tasks (ts : List Task)
  /-- A line of text, which can only be taken character by character. -/
  | line (s : String)
  | nothing

/-- The bounds on how deep evaluation goes and on the moves within a step. -/
structure Limits where
  depth : Nat
  moves : Nat

/-- Bounds that no finite program within reach of a user comes near to. -/
def Limits.generous : Limits := ⟨1000000, 1000000000000000000⟩

namespace Run

/-! ### Evaluating slots -/

def defaultOf (b : Block) (i : Int) : Except Fault Value :=
  match b.definition.input? i with
  | some c => .ok c.default
  | none => .error (.outOfRange .list)

/-- A value as a slot of a kind takes it. -/
def convert (store : Store) (kind : SlotKind) (v : Value) : Except Fault Value :=
  match kind with
  | .number => Value.float <$> v.toFloat
  | .text => .ok (.text (store.plain v))
  | _ => .ok v

/-- What stands in a slot, when blocks in slots give the values that `demand` finds. -/
def slotValue (demand : BlockId → Act Value) (b : Block) (i : Int) (v : Value) : Act Value :=
  match v with
  | .block id => demand id
  | .none => Act.ofExcept (defaultOf b i)
  | v => pure v

/-- The evaluated slots of a block from place `i` on. -/
def inputs (store : Store) (demand : BlockId → Act Value) (b : Block) :
    Nat → List Value → Act (List Value)
  | _, [] => pure []
  | i, v :: rest => do
    let v ← slotValue demand b i v
    match b.definition.input? i with
    | none => Act.fail (.outOfRange .list)
    | some c =>
      let v ← Act.ofExcept (convert store c.kind v)
      return v :: (← inputs store demand b (i + 1) rest)

/-- The value in a slot as it stands, evaluated but not converted; a negative number counts the
slots from the back. -/
def getValue (store : Store) (demand : BlockId → Act Value) (id : BlockId) (i : Int) :
    Act Value :=
  let b := store.block id
  match itemAt? b.values i with
  | none => Act.fail (.outOfRange .list)
  | some v => slotValue demand b i v

/-- Evaluate the slots of a block. Leaving a loop, quitting and asking happen at once; everything
else waits to be run. -/
def begin (store : Store) (demand : BlockId → Act Value) (id : BlockId) : Act Begun := do
  let b := store.block id
  let params ← inputs store demand b 0 b.values
  match b.definition.action with
  | .inert => return .nothing
  | .breakLoop => throw .breakLoop
  | .continueLoop => throw .continueLoop
  | .quit => throw .quit
  | .ask =>
    let question ← Act.ofExcept (Operator.arg params 0 >>= store.brief)
    modify fun s => { s with env := { s.env with inputLine := some question } }
    return .line (← get).env.stdin
  | action => return .tasks [.fresh id action params]

/-- The tasks of a block that stands in a row. -/
def enter : Begun → Except Fault (List Task)
  | .tasks ts => .ok ts
  | .line s => .ok [.letters s.toList]
  | .nothing => .error (.notIterable "NoneType")

/-! ### Moves of tasks -/

def getVariable (store : Store) (name : Value) : Act Value := do
  Act.ofExcept ((← get).env.get store name)

def setVariable (store : Store) (name value : Value) : Act Unit := do
  let scene ← get
  let env ← Act.ofExcept (scene.env.set store name value)
  set { scene with env }

/-- The values to walk through: the items of a list or the characters of a text. -/
def walk : Value → Except Fault (List Value)
  | .list items => .ok items
  | .text s => .ok (s.toList.map fun c => .text (String.singleton c))
  | v => .error (.notIterable v.kindName)

/-- Turn a variable into a number if it spells one; a text that does not stays as it is. -/
def makeNumeric (store : Store) (name : Value) : Act Unit := do
  let v ← getVariable store name
  match v.toFloat with
  | .ok x => setVariable store name (.float x)
  | .error e => if e.isMisread then pure () else Act.fail e

def changeBy (store : Store) (params : List Value) (onText : Fault)
    (f : Float → Float → Float) : Act Move := do
  let name ← Act.ofExcept (Operator.arg params 0)
  makeNumeric store name
  let v ← getVariable store name
  let amount ← Act.ofExcept (Operator.number params 1)
  match v with
  | .num n =>
    setVariable store name (.float (f n.toFloat amount))
    return .give .none []
  | _ => Act.fail onText

/-- A random integer between the whole parts of two numbers. -/
def random (params : List Value) : Act Move := do
  let low ← Act.ofExcept (Operator.number params 0 >>= wholeBy Binary.trunc)
  let high ← Act.ofExcept (Operator.number params 1 >>= wholeBy Binary.trunc)
  if high < low then Act.fail (.emptyRange low high)
  else
    let scene ← get
    let (n, env) := scene.env.roll (high - low + 1).toNat
    set { scene with env }
    return .give (.int (low + n)) []

/-- Compare two values: as numbers if both are or spell numbers, and then still as texts. -/
def compareValues (store : Store) (negated : Bool) (params : List Value) : Except Fault Move := do
  if ← Operator.bothNumeric params then
    return .give (.bool ((← Operator.equalNumbers params) != negated)) [.retelling negated params]
  else return .give (.bool ((← Operator.equalTexts store params) != negated)) []

/-- One round of sleeping: a sixtieth of a second. -/
def sleepOn : Act Move := do
  let scene ← get
  if Num.lt 0 scene.env.timer then
    set { scene with env := { scene.env with timer := scene.env.timer - Num.float (1 / 60) } }
    return .give .none [.sleeping]
  else return .go []

/-- Empty a file and write a value into it. -/
def writeFile (store : Store) (params : List Value) : Act Move := do
  let path ← Act.ofExcept (Operator.chars params 0)
  let path := String.ofList path
  let scene ← get
  let folder ← Act.ofExcept (scene.folder.write path (.text ""))
  set { scene with folder }
  let contents ← Act.ofExcept (Operator.arg params 1 >>= store.brief)
  set { scene with folder := folder.put path (.text contents) }
  return .give .none []

def first (store : Store) (id : BlockId) (action : Action) (params : List Value) : Act Move := do
  match action with
  | .start => return .give .none []
  | .sleep =>
    let time ← Act.ofExcept (Operator.number params 0)
    modify fun s => { s with env := { s.env with timer := .float time } }
    sleepOn
  | .repeatTimes =>
    let n ← Act.ofExcept (Operator.number params 0 >>= wholeBy Binary.trunc)
    return .go [.counted n.toNat params]
  | .forEach =>
    let name ← Act.ofExcept (Operator.arg params 1)
    let items ← Act.ofExcept (walk (← getVariable store name))
    return .go [.listed items params]
  | .whileTrue => return .go [.conditional id params]
  | .ifThen =>
    let condition ← Act.ofExcept (Operator.arg params 0)
    return .go (if condition.truth then [.body params 1] else [])
  | .ifElse =>
    let condition ← Act.ofExcept (Operator.arg params 0)
    return .go [.body params (if condition.truth then 1 else 2)]
  | .attempt => return .go [.body params 0, .guarded params]
  | .readFile =>
    let path ← Act.ofExcept (Operator.chars params 0)
    let text ← Act.ofExcept ((← get).folder.readText (String.ofList path))
    return .give (.text text) []
  | .say =>
    let line ← Act.ofExcept (Operator.arg params 0 >>= store.brief)
    modify fun s => { s with env := s.env.say line }
    return .give .none []
  | .writeFile => writeFile store params
  | .random => random params
  | .equal => Act.ofExcept (compareValues store false params)
  | .unequal => Act.ofExcept (compareValues store true params)
  | .getVariable =>
    let name ← Act.ofExcept (Operator.arg params 0)
    return .give (← getVariable store name) []
  | .setVariable =>
    let value ← Act.ofExcept (Operator.arg params 1)
    let name ← Act.ofExcept (Operator.arg params 0)
    setVariable store name value
    return .give .none []
  | .increment => changeBy store params .cannotJoin (· + ·)
  | .decrement => changeBy store params .cannotSubtract (· - ·)
  | action => return .give (← Act.ofExcept (Operator.value store action params)) []

def bodyTasks (store : Store) (demand : BlockId → Act Value) (params : List Value) (slot : Nat) :
    Act (List Task) := do
  match ← Act.ofExcept (Operator.arg params slot) with
  | .stack id => return [.stack id]
  | .block id => Act.ofExcept (enter (← begin store demand id))
  | v => Act.fail (.noAttribute v.kindName "execute")

def advance (store : Store) (demand : BlockId → Act Value) (task : Task) : Act Move := do
  match task with
  | .fresh id action params => first store id action params
  | .body params slot => return .go (← bodyTasks store demand params slot)
  | .stack id => return .go [.row (store.stack id).row 0]
  | .row row next =>
    match (store.row row)[next]? with
    | none => return .go []
    | some id =>
      let ts ← Act.ofExcept (enter (← begin store demand id))
      return .go (ts ++ [.row row (next + 1)])
  | .counted 0 _ => return .go []
  | .counted (left + 1) params => return .go [.body params 1, .counted left params]
  | .listed [] _ => return .go []
  | .listed (item :: items) params =>
    let name ← Act.ofExcept (Operator.arg params 0)
    setVariable store name item
    return .go [.body params 2, .listed items params]
  | .conditional id params =>
    let condition ← getValue store demand id 0
    return .go (if condition.truth then [.body params 1, .conditional id params] else [])
  | .guarded _ => return .go []
  | .sleeping => sleepOn
  | .retelling negated params =>
    return .give (.bool ((← Act.ofExcept (Operator.equalTexts store params)) != negated)) []
  | .letters [] => return .go []
  | .letters (c :: cs) => return .give (.text (String.singleton c)) [.letters cs]

/-! ### Steps of programs -/

/-- Where an exit is caught among the waiting tasks, and what goes on from there. -/
def unwind (e : Exit) : List Task → Option (List Task)
  | [] => none
  | t :: rest =>
    match t, e with
    | .counted .., .breakLoop | .listed .., .breakLoop | .conditional .., .breakLoop => some rest
    | .counted .., .continueLoop | .listed .., .continueLoop | .conditional .., .continueLoop =>
      some (t :: rest)
    | .guarded params, e => if e.isCaught then some (.body params 1 :: rest) else unwind e rest
    | _, e => unwind e rest

/-- Work on the tasks until a value is given, in at most `fuel` moves: the value and the tasks that
are left, or nothing when all tasks have ended. -/
def resume (store : Store) (demand : BlockId → Act Value) :
    Nat → List Task → Act (Option (Value × List Task))
  | 0, _ => throw .outOfFuel
  | _ + 1, [] => pure none
  | fuel + 1, t :: rest => fun scene =>
    match advance store demand t scene with
    | .ok (.give v ts) scene => .ok (some (v, ts ++ rest)) scene
    | .ok (.go ts) scene => resume store demand fuel (ts ++ rest) scene
    | .error e scene =>
      match unwind e.fromInside rest with
      | some tasks => resume store demand fuel tasks scene
      | none => .error e.fromInside scene

/-- The first value of a block, and while that is a block, the first value of that one; evaluated
to a depth of `fuel`. -/
def demand (store : Store) (moves : Nat) : Nat → BlockId → Act Value
  | 0, _ => throw .outOfFuel
  | fuel + 1, id => do
    match ← begin store (demand store moves fuel) id with
    | .nothing => Act.fail (.notIterator "NoneType")
    | .line _ => Act.fail (.notIterator "str")
    | .tasks ts =>
      match ← resume store (demand store moves fuel) moves ts with
      | none => Act.fail .ended
      | some (.block id, _) => demand store moves fuel id
      | some (v, _) => pure v

/-- One step of a running program within the given bounds. -/
def step (store : Store) (limits : Limits) (tasks : List Task) :
    Act (Option (Value × List Task)) :=
  resume store (demand store limits.moves limits.depth) limits.moves tasks

/-- Evaluate the slots of a block within the given bounds. -/
def start (store : Store) (limits : Limits) (id : BlockId) : Act Begun :=
  begin store (demand store limits.moves limits.depth) id

/-- The program that runs the blocks of a stack. -/
def program (id : StackId) : List Task :=
  [.stack id]

/-! ### Whole runs -/

/-- What one step of a program gave. -/
structure Step where
  value : Value
  said : List String

inductive Ending where
  | finished
  | running
  | stopped (e : Exit)

/-- At most `count` steps of a program: what they gave, how they ended and the scene they left. -/
def follow (store : Store) (limits : Limits) :
    Nat → List Task → Scene → List Step × Ending × Scene
  | 0, _, scene => ([], .running, scene)
  | count + 1, tasks, scene =>
    match step store limits tasks scene with
    | .ok none after => ([], .finished, after)
    | .ok (some (v, tasks)) after =>
      let said := (after.env.output.extract scene.env.output.size after.env.output.size).toList
      let (steps, ending, last) := follow store limits count tasks after
      (⟨v, said⟩ :: steps, ending, last)
    | .error e after => ([], .stopped e, after)

end Run

end BlockStudio
